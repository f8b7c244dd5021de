import Autodialer.Partition
import Autodialer.Steps

/-!
# The invariant of the dialer

`Inv` holds between any two steps of the process: the lists of the campaigns
divide the contacts, calls and timers go together, `services` lists the
campaigns, and calls and sessions own each other as `Sound` says. Every handler
of the main loop and every part of a pass has a lemma that it keeps `Inv`.

* `step_inv`: every step keeps the invariant.
* `execution_inv`: it holds throughout every run.
-/

namespace Autodialer

/-- `services` lists every campaign once. -/
structure Rostered (s : Sys) : Prop where
  mem : ∀ cp, cp ∈ s.services ↔ ∃ camp, s.book.camps.get cp = some camp
  nodup : s.services.Nodup

/-- Every campaign has its own actions. -/
structure Keyed (actions : Heap Action) (b : Book) : Prop where
  live : ∀ cp camp a, b.camps.get cp = some camp → a ∈ camp.actions → (actions.get a).isSome = true
  apart : ∀ cp cp' camp camp' a, b.camps.get cp = some camp → b.camps.get cp' = some camp' →
    a ∈ camp.actions → a ∈ camp'.actions → cp = cp'

structure Inv (ans : CallId → Addr → Prop) (s : Sys) : Prop where
  partition : Partition s.book
  supervised : AllSupervised s.book
  rostered : Rostered s
  keyed : Keyed s.actions s.book
  sound : Sound s.media s.book.owner
  phase : AllInPhase ans s.media

variable {s s' t : Sys} {b b' : Book} {m : Media} {d : DestId} {c : CallId} {cp : CampId}
  {dest : Destination} {camp : Campaign} {call : Call} {now : Time}
  {ans ans' : CallId → Addr → Prop}

/-! ## Owners -/

theorem owner_of_live (live : b.dests.get d = some dest) : b.owner d = dest.call := by
  simp [Book.owner, live]

theorem owner_eq_some (has : b.owner d = some c) :
    ∃ dest, b.dests.get d = some dest ∧ dest.call = some c := by
  obtain ⟨dest, live, has⟩ := Option.bind_eq_some_iff.mp has
  exact ⟨dest, live, has⟩

/-- Only the call of `d` may have changed. -/
theorem owner_update {o : Option CallId} (here : b'.owner d = o)
    (others : ∀ e, e ≠ d →
      (b'.dests.get e).bind Destination.call = (b.dests.get e).bind Destination.call) :
    b'.owner = Function.update b.owner d o := by
  funext e
  by_cases same : e = d
  · subst same
    rw [here, Function.update_self]
  · rw [Function.update_of_ne same]
    exact others e same

theorem owner_setDest (live : b.dests.get d = some dest) (f : Destination → Destination) :
    (b.setDest d f).owner = Function.update b.owner d (f dest).call :=
  owner_update (by simp [Book.owner, live]) fun e ne => by simp [Heap.get_modify_ne ne]

theorem owner_remove (b : Book) (d : DestId) :
    (b.remove d).owner = Function.update b.owner d none :=
  owner_update (by simp [Book.owner, Book.remove_dests]) fun e ne => by
    rw [Book.remove_dests, if_neg ne]

theorem owner_rearranged (change : Rearranged b b') : b'.owner = b.owner := by
  funext d
  obtain ⟨le, eq⟩ := change.dests d
  rw [Book.owner, Book.owner, eq]
  cases b.dests.get d <;> rfl

/-- A new contact has no call. -/
theorem owner_loadContact (cp : CampId) (b : Book) (row : CallRow) :
    (loadContact cp b row).owner = b.owner := by
  have append : loadContact cp b row = _ := listAppend_alloc b (.destinations cp) rfl
  funext d
  rw [append]
  simp only [Book.owner, Book.dests_setCamp, Heap.get_alloc]
  split
  next isNew =>
    rw [isNew, Heap.get_next]
    rfl
  next => rfl

theorem owner_loadContacts (cp : CampId) (rows : List CallRow) (b : Book) :
    (rows.foldl (loadContact cp) b).owner = b.owner := by
  induction rows generalizing b with
  | nil => rfl
  | cons row rest ih => rw [List.foldl_cons, ih, owner_loadContact]

/-! ## Actions and services -/

namespace Keyed

variable {actions : Heap Action}

theorem empty : Keyed actions {} where
  live _ _ _ live := by cases live
  apart _ _ _ _ _ live := by cases live

/-- The campaigns of `b'` have the actions they had in `b`. -/
theorem fewer (inv : Keyed actions b)
    (back : ∀ cp camp', b'.camps.get cp = some camp' →
      ∃ camp, b.camps.get cp = some camp ∧ camp'.actions = camp.actions) : Keyed actions b' where
  live cp camp' a live mem := by
    obtain ⟨camp, old, same⟩ := back cp camp' live
    exact inv.live cp camp a old (same ▸ mem)
  apart cp cp' camp camp' a live live' mem mem' := by
    obtain ⟨camp₀, old, same⟩ := back cp camp live
    obtain ⟨camp₀', old', same'⟩ := back cp' camp' live'
    exact inv.apart cp cp' camp₀ camp₀' a old old' (same ▸ mem) (same' ▸ mem')

theorem rearranged (inv : Keyed actions b) (change : Rearranged b b') : Keyed actions b' :=
  inv.fewer fun cp camp' live => by
    obtain ⟨camp, ds, ps, old, rfl⟩ := change.of_camp live
    exact ⟨camp, old, rfl⟩

theorem setCamp (inv : Keyed actions b) {f : Campaign → Campaign}
    (same : ∀ camp, (f camp).actions = camp.actions) : Keyed actions (b.setCamp cp f) :=
  inv.fewer fun cp' camp' live => by
    rw [Book.camps_setCamp, Heap.get_modify] at live
    split at live
    next here =>
      subst here
      obtain ⟨camp, old, rfl⟩ := Option.map_eq_some_iff.mp live
      exact ⟨camp, old, same camp⟩
    next => exact ⟨camp', live, rfl⟩

/-- The actions of a campaign are freed with it. -/
theorem destroy (inv : Keyed actions b) (live : b.camps.get cp = some camp)
    (camps : ∀ cp', b'.camps.get cp' = if cp' = cp then none else b.camps.get cp') :
    Keyed (flushActions actions camp.actions) b' where
  live cp' camp' a live' mem := by
    rw [camps] at live'
    split at live'
    · cases live'
    next other =>
      rw [flushActions_get, if_neg fun mem' => other (inv.apart cp' cp camp' camp a live' live mem mem')]
      exact inv.live cp' camp' a live' mem
  apart cp' cp'' camp' camp'' a live' live'' mem mem' := by
    rw [camps] at live' live''
    split at live'
    · cases live'
    · split at live''
      · cases live''
      · exact inv.apart cp' cp'' camp' camp'' a live' live'' mem mem'

/-- The actions of a campaign are replaced by new ones. -/
theorem reload {acts : Heap Action} {l : List ActionId} (inv : Keyed actions b)
    (live : b.camps.get cp = some camp) (loaded : Reloaded actions camp.actions acts l) :
    Keyed acts (b.setCamp cp fun camp => { camp with actions := l }) := by
  have cases : ∀ cp' camp', (b.setCamp cp fun camp => { camp with actions := l }).camps.get cp' =
      some camp' → (cp' = cp ∧ camp'.actions = l) ∨ (cp' ≠ cp ∧ b.camps.get cp' = some camp') := by
    intro cp' camp' live'
    rw [Book.camps_setCamp, Heap.get_modify] at live'
    split at live'
    next here =>
      obtain ⟨old, -, rfl⟩ := Option.map_eq_some_iff.mp live'
      exact .inl ⟨here, rfl⟩
    next other => exact .inr ⟨other, live'⟩
  have below : ∀ cp' camp' a, b.camps.get cp' = some camp' → a ∈ camp'.actions → a < actions.next := by
    intro cp' camp' a live' mem
    obtain ⟨action, isSome⟩ := Option.isSome_iff_exists.mp (inv.live cp' camp' a live' mem)
    exact Heap.lt_next isSome
  constructor
  · intro cp' camp' a live' mem
    rcases cases cp' camp' live' with ⟨-, isL⟩ | ⟨other, old⟩
    · exact (loaded.new a (isL ▸ mem)).2
    · rw [loaded.kept a (below cp' camp' a old mem),
        if_neg fun mem' => other (inv.apart cp' cp camp' camp a old live mem mem')]
      exact inv.live cp' camp' a old mem
  · intro cp' cp'' camp' camp'' a live' live'' mem mem'
    rcases cases cp' camp' live' with ⟨here, isL⟩ | ⟨other, old⟩ <;>
      rcases cases cp'' camp'' live'' with ⟨here', isL'⟩ | ⟨other', old'⟩
    · rw [here, here']
    · exact absurd (below cp'' camp'' a old' mem') (Nat.not_lt.mpr (loaded.new a (isL ▸ mem)).1)
    · exact absurd (below cp' camp' a old mem) (Nat.not_lt.mpr (loaded.new a (isL' ▸ mem')).1)
    · exact inv.apart cp' cp'' camp' camp'' a old old' mem mem'

end Keyed

/-- The campaigns are the same. -/
theorem Rostered.congr (inv : Rostered s) (services : s'.services = s.services)
    (camps : ∀ cp, (s'.book.camps.get cp).isSome = (s.book.camps.get cp).isSome) : Rostered s' where
  mem cp := by
    rw [services, inv.mem, ← Option.isSome_iff_exists, ← Option.isSome_iff_exists, camps]
  nodup := by rw [services]; exact inv.nodup

namespace Inv

theorem boot (n : Nat) (audioPath : String) : Inv ans (Sys.boot n audioPath) where
  partition := Partition.empty
  supervised := AllSupervised.empty
  rostered := ⟨fun cp => by simp [Sys.boot], List.nodup_nil⟩
  keyed := Keyed.empty
  sound := Sound.empty n
  phase _ _ live := by cases live

theorem mono (inv : Inv ans s) (more : ∀ c a, ans c a → ans' c a) : Inv ans' s :=
  { inv with phase := inv.phase.mono more }

/-- A handler that leaves contacts and campaigns alone. -/
theorem callback {db : Db Sql} (inv : Inv ans s) (sound : Sound m s.book.owner)
    (phase : AllInPhase ans' m) : Inv ans' { s with media := m, db := db } where
  partition := inv.partition
  supervised := inv.supervised
  rostered := ⟨inv.rostered.mem, inv.rostered.nodup⟩
  keyed := inv.keyed
  sound := sound
  phase := phase

/-- Nothing is said about the queue and the list of timers. -/
theorem requeued (inv : Inv ans s) (msgq : List (Nat × CampId)) (torn : Bool)
    (lost : List TimerId) : Inv ans { s with msgq := msgq, torn := torn, lost := lost } :=
  ⟨inv.partition, inv.supervised, ⟨inv.rostered.mem, inv.rostered.nodup⟩, inv.keyed, inv.sound,
    inv.phase⟩

/-- A write to a call that neither links it nor puts it out of phase. -/
theorem setCall {f : Call → Call} (inv : Inv ans s)
    (links : ∀ call, SameLinks call (f call))
    (phase : ∀ call, s.media.calls.get c = some call → InPhase ans c call → InPhase ans c (f call)) :
    Inv ans (s.setCall c f) :=
  inv.callback (inv.sound.setCall fun call _ => links call) (inv.phase.setCall phase)

/-- A write to a campaign that leaves its lists and actions alone. -/
theorem setCamp {f : Campaign → Campaign} (inv : Inv ans s)
    (same : ∀ camp, (f camp).destinations = camp.destinations ∧ (f camp).processl = camp.processl ∧
      (f camp).actions = camp.actions) : Inv ans (s.setCamp cp f) where
  partition := inv.partition.setCamp fun camp r _ => by
    cases r with
    | destinations cp => simp only [Campaign.elems, (same camp).1, List.Perm.refl]
    | processl cp => simp only [Campaign.elems, (same camp).2.1, List.Perm.refl]
  supervised := inv.supervised
  rostered := inv.rostered.congr rfl fun cp' => by
    rw [Sys.setCamp, Book.camps_setCamp, Heap.get_modify]
    split
    · rw [Option.isSome_map]
    · rfl
  keyed := inv.keyed.setCamp fun camp => (same camp).2.2
  sound := inv.sound
  phase := inv.phase

/-- The lists are rearranged. -/
theorem rearrange (inv : Inv ans s) (change : Rearranged s.book b) (partition : Partition b)
    (supervised : AllSupervised b) : Inv ans { s with book := b } where
  partition := partition
  supervised := supervised
  rostered := inv.rostered.congr rfl fun cp => by
    obtain ⟨ds, ps, eq⟩ := change.camps cp
    change (b.camps.get cp).isSome = _
    rw [eq, Option.isSome_map]
  keyed := inv.keyed.rearranged change
  sound := inv.sound.congr_own fun d => congrFun (owner_rearranged change) d
  phase := inv.phase

end Inv

/-! ## Filling the process list -/

/-- The destinations that the selection loop may still move. -/
structure Selecting (cp : CampId) (rest : List DestId) (b : Book) : Prop where
  partition : Partition b
  supervised : AllSupervised b
  nodup : rest.Nodup
  waiting : ∀ d ∈ rest, ∃ dest, b.dests.get d = some dest ∧ dest.cp = cp ∧
    dest.le = some (.destinations cp)

theorem Selecting.move {rest : List DestId} (inv : Selecting cp (d :: rest) b) :
    Selecting cp rest (b.moveTo d (.processl cp)) := by
  obtain ⟨dest, live, onCp, on⟩ := inv.waiting d List.mem_cons_self
  have distinct := List.nodup_cons.mp inv.nodup
  refine ⟨inv.partition.moveTo live onCp.symm, inv.supervised.moveTo live on ?_, distinct.2, ?_⟩
  · exact (inv.supervised d dest live).waiting (by rw [on, onCp])
  · intro e mem
    have ne : e ≠ d := by
      rintro rfl
      exact distinct.1 mem
    obtain ⟨dest', live', rest'⟩ := inv.waiting e (List.mem_cons_of_mem _ mem)
    exact ⟨dest', by rw [Book.moveTo_dests live on, if_neg ne, live'], rest'⟩

theorem fillProcessl_keeps (partition : Partition b) (supervised : AllSupervised b)
    (run : fillProcessl b cp now = .ok b') : Partition b' ∧ AllSupervised b' := by
  rcases fillProcessl_cases run with rfl | ⟨camp, order, live, perm, room, run⟩
  · exact ⟨partition, supervised⟩
  · have sorted : Partition (b.setCamp cp fun camp => { camp with destinations := order }) := by
      refine partition.setCamp fun camp' r live' => ?_
      obtain rfl := Option.some.inj (live.symm.trans live')
      cases r with
      | destinations cp => exact perm
      | processl cp => exact List.Perm.refl _
    have start : Selecting cp order (b.setCamp cp fun camp => { camp with destinations := order }) := by
      refine ⟨sorted, supervised, perm.nodup_iff.mpr (partition.nodup cp camp _ live
        (Eq.refl (Ring.destinations cp).cp)), fun d mem => ?_⟩
      exact partition.on_destinations live (perm.mem_iff.mp mem)
    obtain ⟨rest, inv⟩ := selectLoop_rule (I := Selecting cp)
      (fun d rest b inv => ⟨inv.partition, inv.supervised, (List.nodup_cons.mp inv.nodup).2,
        fun e mem => inv.waiting e (List.mem_cons_of_mem _ mem)⟩)
      (fun d rest b dest camp inv _ _ _ _ => inv.move) start
      (by simp [live]; exact room) run
    exact ⟨inv.partition, inv.supervised⟩

theorem Inv.fill (inv : Inv ans s) (run : fillProcessl s.book cp now = .ok b) :
    Inv ans { s with book := b } :=
  have kept := fillProcessl_keeps inv.partition inv.supervised run
  inv.rearrange (fillProcessl_rearranged run) kept.1 kept.2

/-! ## Changes to one destination -/

namespace Inv

/-- A destination gets another call and keeps its place. -/
theorem changeDest {f : Destination → Destination} {db : Db Sql} (inv : Inv ans s)
    (live : s.book.dests.get d = some dest)
    (same : (f dest).cp = dest.cp ∧ (f dest).le = dest.le) (supervised : Supervised (f dest))
    (sound : Sound m (Function.update s.book.owner d (f dest).call)) (phase : AllInPhase ans m) :
    Inv ans { s with media := m, book := s.book.setDest d f, db := db } where
  partition := inv.partition.setDest fun dest' live' => by
    obtain rfl := Option.some.inj (live.symm.trans live')
    exact same
  supervised := inv.supervised.setDest fun dest' live' _ => by
    obtain rfl := Option.some.inj (live.symm.trans live')
    exact supervised
  rostered := ⟨inv.rostered.mem, inv.rostered.nodup⟩
  keyed := ⟨inv.keyed.live, inv.keyed.apart⟩
  sound := by
    change Sound m (s.book.setDest d f).owner
    rw [owner_setDest live]
    exact sound
  phase := phase

/-- A destination is destroyed. -/
theorem removeDest {db : Db Sql} (inv : Inv ans s) (live : s.book.dests.get d = some dest)
    (sound : Sound m (Function.update s.book.owner d none)) (phase : AllInPhase ans m) :
    Inv ans { s with media := m, book := s.book.remove d, db := db } := by
  obtain ⟨r, -, on, -⟩ := inv.partition.linked d dest live
  refine ⟨inv.partition.remove live, inv.supervised.remove d, ?_, ?_, ?_, phase⟩
  · exact inv.rostered.congr rfl fun cp => by
      change ((s.book.remove d).camps.get cp).isSome = _
      rw [Book.remove_camps live on]
      split
      · rw [Option.isSome_map]
      · rfl
  · refine inv.keyed.fewer fun cp camp' live' => ?_
    change (s.book.remove d).camps.get cp = _ at live'
    rw [Book.remove_camps live on] at live'
    split at live'
    · obtain ⟨camp, old, rfl⟩ := Option.map_eq_some_iff.mp live'
      exact ⟨camp, old, by cases r <;> rfl⟩
    · exact ⟨camp', live', rfl⟩
  · change Sound m (s.book.remove d).owner
    rw [owner_remove]
    exact sound

end Inv

/-! ## Dialling -/

theorem Tags.links {f : Call → Call} (tags : Tags f) (call : Call) : SameLinks call (f call) := by
  obtain ⟨audio, joinPbx, eq⟩ := tags call
  rw [eq]
  exact ⟨rfl, rfl, rfl, rfl, rfl, rfl⟩

theorem Tags.phase {f : Call → Call} (tags : Tags f) (phase : InPhase ans c call) :
    InPhase ans c (f call) := by
  obtain ⟨audio, joinPbx, eq⟩ := tags call
  rw [eq]
  exact ⟨phase.answered, phase.forwarded, phase.heard⟩

section CallAlloc

variable {env : AllocEnv} {tel : Option String} {isPbx : Bool} {arg : DestId} {r : Alloc}
  {callp : Option CallId} {rs : SessionId}

theorem NotPlaced.phase (failed : NotPlaced m env tel isPbx arg callp r)
    (phase : AllInPhase ans m) : AllInPhase ans r.media :=
  phase.fewer fun p _ live => (failed.calls p).symm.trans live

theorem Placed.phase (done : Placed m env now tel isPbx arg r rs call)
    (phase : AllInPhase ans m) : AllInPhase ans r.media := by
  obtain ⟨pt, sess, rfl⟩ := done.new
  intro p call live
  rw [done.calls, Heap.get_alloc] at live
  split at live
  · cases live
    exact InPhase.placed
  · exact phase p call live

end CallAlloc

theorem Inv.dial {env : DialEnv} {destroyed : Bool} (inv : Inv ans s)
    (live : s.book.dests.get d = some dest) (on : dest.le = some (.processl dest.cp))
    (result : DialResult s now env d dest s' destroyed) : Inv ans s' := by
  cases result with
  | skipped => exact inv
  | @destroyed r idle calls err noCall =>
    obtain ⟨_, _, _, -, -, -, placing⟩ := calls
    have failed := callAlloc_notPlaced placing err
    refine inv.removeDest live ?_ (failed.phase inv.phase)
    rw [← idle, ← owner_of_live live, Function.update_eq_self]
    exact inv.sound.refused failed
  | @undone r c camp f media idle calls ok isCall _ _ tags gone =>
    obtain ⟨_, _, _, -, -, -, placing⟩ := calls
    obtain ⟨rfl, rs, call, done⟩ := callAlloc_placed placing ok isCall
    have noOwner : s.book.owner d = none := (owner_of_live live).trans idle
    have placed := (inv.sound.place done noOwner).setCall (c := s.media.calls.next) (f := f)
      fun call _ => tags.links call
    -- the call is placed, and then dropped again
    have dropped := placed.drop (Function.update_self ..) gone
    obtain ⟨new, liveNew⟩ := memDerefCall_live gone
    obtain ⟨ids, drop, -⟩ := memDerefCall_dropped placed liveNew gone
    refine inv.changeDest live ⟨rfl, rfl⟩ ?_ ?_ ?_
    · have unarmed := (inv.supervised d dest live).armed
      exact ⟨by rw [idle] at unarmed; exact unarmed, fun _ => rfl⟩
    · rwa [Function.update_idem] at dropped
    · have before := (done.phase inv.phase).setCall (f := f) (c := s.media.calls.next)
        fun call _ phase => tags.phase phase
      refine before.fewer fun p call live' => ?_
      rw [drop.calls] at live'
      split at live'
      · cases live'
      · exact live'
  | @placed r c camp f call idle calls ok isCall _ _ tags _ =>
    obtain ⟨_, _, _, -, -, -, placing⟩ := calls
    obtain ⟨rfl, rs, new, done⟩ := callAlloc_placed placing ok isCall
    have noOwner : s.book.owner d = none := (owner_of_live live).trans idle
    have placed := (inv.sound.place done noOwner).setCall (c := s.media.calls.next) (f := f)
      fun call _ => tags.links call
    refine inv.changeDest live ⟨rfl, rfl⟩ ⟨rfl, fun waits => ?_⟩ placed ?_
    · rw [Destination.dialled, on] at waits
      cases waits
    · exact (done.phase inv.phase).setCall fun call _ phase => tags.phase phase

/-- The destinations that the dial loop has still to look at. -/
structure Dialling (ans : CallId → Addr → Prop) (cp : CampId) (rest : List DestId) (s : Sys) :
    Prop where
  inv : Inv ans s
  nodup : rest.Nodup
  on : ∀ d ∈ rest, ∃ dest, s.book.dests.get d = some dest ∧ dest.cp = cp ∧
    dest.le = some (.processl cp)

/-- Dialling one destination leaves the others alone. -/
theorem DialResult.others {env : DialEnv} {destroyed : Bool}
    (result : DialResult s now env d dest s' destroyed) {e : DestId} (ne : e ≠ d) :
    s'.book.dests.get e = s.book.dests.get e := by
  cases result with
  | skipped => rfl
  | destroyed => exact (Book.remove_dests e).trans (if_neg ne)
  | undone => exact Heap.get_modify_ne ne
  | placed => exact Heap.get_modify_ne ne

theorem Dialling.dial {env : DialEnv} {destroyed : Bool} {rest : List DestId}
    (loop : Dialling ans cp (d :: rest) s) (live : s.book.dests.get d = some dest)
    (result : DialResult s now env d dest s' destroyed) : Dialling ans cp rest s' := by
  have distinct := List.nodup_cons.mp loop.nodup
  obtain ⟨dest', live', onCp, on⟩ := loop.on d List.mem_cons_self
  obtain rfl := Option.some.inj (live.symm.trans live')
  refine ⟨loop.inv.dial live (by rw [on, onCp]) result, distinct.2, fun e mem => ?_⟩
  rw [result.others (by rintro rfl; exact distinct.1 mem)]
  exact loop.on e (List.mem_cons_of_mem _ mem)

theorem Inv.dialling (inv : Inv ans s) (live : s.book.camps.get cp = some camp) :
    Dialling ans cp camp.processl s :=
  ⟨inv, inv.partition.nodup cp camp (.processl cp) live rfl,
    fun _ mem => inv.partition.on_processl live mem⟩

theorem Inv.dialLoop {env : DestId → DialEnv} (inv : Inv ans s)
    (live : s.book.camps.get cp = some camp)
    (run : Autodialer.dialLoop now env camp.processl s = .ok s') : Inv ans s' := by
  obtain ⟨rest, loop⟩ := dialLoop_rule (I := Dialling ans cp)
    (fun d rest s dest s' destroyed _ loop live result => loop.dial live result)
    (inv.dialling live) run
  exact loop.inv

/-- Wherever the dial loop gets to, the rest of its list is still to be dialled. -/
theorem Dials.dialling {env : DestId → DialEnv} {l l' : List DestId} (loop : Dialling ans cp l s)
    (dials : Dials now env l s l' t) : Dialling ans cp l' t := by
  induction dials with
  | start => exact loop
  | @next d rest u u' destroyed _ dialled _ ih =>
    obtain ⟨dest, live, -⟩ := ih.on d List.mem_cons_self
    exact ih.dial live (dialDest_cases live dialled)

theorem TickReaches.dialling {env : DestId → DialEnv} (inv : Inv ans s)
    (reaches : TickReaches s cp now env d t) : ∃ rest, Dialling ans cp (d :: rest) t := by
  obtain ⟨camp, book, camp', rest, -, -, filled, live, dials⟩ := reaches
  exact ⟨rest, dials.dialling ((inv.fill filled).dialling live)⟩

theorem Inv.flags {f : Campaign → Campaign} (inv : Inv ans s) (flags : Flags f) :
    Inv ans (s.setCamp cp f) :=
  inv.setCamp fun camp => by
    obtain ⟨isRunning, tmr, eq⟩ := flags camp
    rw [eq]
    exact ⟨rfl, rfl, rfl⟩

theorem Inv.ticks {env : DestId → DialEnv} {e : Event} (inv : Inv ans s)
    (ticks : Ticks s cp now env e t) : Inv ans t := by
  obtain ⟨f, msgq, torn, lost, flags, rfl⟩ := ticks.state
  exact (inv.requeued msgq torn lost).flags flags

theorem Inv.tick {env : DestId → DialEnv} (inv : Inv ans s)
    (run : startFakeCalling s cp now env = .ok s') : Inv ans s' := by
  obtain ⟨camp, -, ⟨-, rfl⟩ | ⟨-, book, camp', t, filled, live, dialled, rfl⟩⟩ :=
    startFakeCalling_cases run
  · exact inv.flags fun camp => ⟨false, camp.tmr, rfl⟩
  · have loop := (inv.fill filled).dialLoop live dialled
    exact loop.flags fun camp => ⟨camp.isRunning, true, rfl⟩

/-! ## The supervision of a call -/

section CallEnd

variable {env : AllocEnv} {own : Owner}

/-- The rules keep what calls and sessions say of each other. -/
theorem RulesResult.sound {halted : Bool} (rules : RulesResult s now env d c call t halted)
    (sound : Sound s.media own) (phase : AllInPhase ans s.media) (has : own d = some c)
    (live : s.media.calls.get c = some call) : Sound t.media own ∧ AllInPhase ans t.media := by
  have noLeg : call.forwarded = false → call.pbxCall = none := (phase c call live).noLeg
  cases rules with
  | kept => exact ⟨sound, phase⟩
  | ended =>
    refine ⟨sound.setCall fun _ _ => ⟨rfl, rfl, rfl, rfl, rfl, rfl⟩, phase.setCall fun _ _ old => ?_⟩
    refine ⟨fun _ notEnded => ?_, old.forwarded, old.heard⟩
    cases notEnded
  | @refused gateway tel r _ up notForwarded placing err =>
    have failed := callAlloc_notPlaced placing err
    have none := failed.noCall (noLeg notForwarded)
    refine ⟨(sound.refused failed).setCall fun call' live' => ?_,
      (failed.phase phase).setCall fun call' live' old => ?_⟩
    · obtain rfl := Option.some.inj (live.symm.trans ((failed.calls c).symm.trans live'))
      exact ⟨rfl, none.trans (noLeg notForwarded).symm, rfl, rfl, rfl, rfl⟩
    · refine ⟨old.answered, fun hasLeg => ?_, old.heard⟩
      rw [none] at hasLeg
      cases hasLeg
  | @forwarded gateway tel r leg notEnded up notForwarded placing ok isLeg =>
    obtain ⟨rfl, rs, new, done⟩ := callAlloc_placed placing ok isLeg
    have here := phase c call live
    refine ⟨sound.placeLeg done live has (noLeg notForwarded) (here.answered up notEnded), ?_⟩
    intro p call' live'
    replace live' := (done.legCalls_get live p).symm.trans live'
    split at live'
    next isMain =>
      subst isMain
      cases live'
      exact ⟨here.answered, fun _ => ⟨up, rfl⟩, here.heard⟩
    next =>
      split at live'
      next =>
        -- the leg is not answered yet, and has no leg of its own
        obtain ⟨pt, sess, rfl⟩ := done.new
        cases live'
        refine ⟨fun up => ?_, fun hasLeg => ?_, fun a heard => ?_⟩
        · cases up
        · cases hasLeg
        · cases heard
      next => exact phase p call' live'

theorem Call.disconnect_links (call : Call) : SameLinks call call.disconnect :=
  ⟨rfl, rfl, rfl, rfl, rfl, rfl⟩

/-- The end of the recorded call. -/
theorem Sound.disconnect (sound : Sound m own) (phase : AllInPhase ans m) (has : own d = some c)
    {m' : Media} (run : memDerefCall callDepth (m.setCall c Call.disconnect) c = .ok m') :
    Sound m' (Function.update own d none) ∧ AllInPhase ans m' := by
  have marked := sound.setCall (c := c) fun call _ => call.disconnect_links
  obtain ⟨call, live⟩ := memDerefCall_live run
  obtain ⟨gone, dropped, which⟩ := memDerefCall_dropped marked live run
  refine ⟨marked.drop has run, phase.fewer fun p call' live' => ?_⟩
  rw [dropped.calls] at live'
  split at live'
  · cases live'
  next here =>
    have ne : p ≠ c := by
      rintro rfl
      rcases which with ⟨rfl, -⟩ | ⟨leg, rfl, -⟩
      · simp at here
      · simp at here
    rwa [calls_setCall, Heap.get_modify_ne ne] at live'

/-- A call leads to its destination and its campaign. -/
theorem Inv.arg_live (inv : Inv ans s) (live : s.media.calls.get c = some call) :
    ∃ d dest camp, call.arg = some d ∧ s.book.dests.get d = some dest ∧
      s.book.camps.get dest.cp = some camp := by
  obtain ⟨d, isArg, main⟩ := inv.sound.role c call live
  have owned : ∃ c', s.book.owner d = some c' := by
    rcases main with ⟨-, owned⟩ | isLeg
    · exact ⟨c, owned⟩
    · obtain ⟨c', _, owned, -⟩ := isLeg.main
      exact ⟨c', owned⟩
  obtain ⟨c', owned⟩ := owned
  obtain ⟨dest, liveDest, -⟩ := owner_eq_some owned
  obtain ⟨_, camp, -, -, liveCamp, -⟩ := inv.partition.linked d dest liveDest
  exact ⟨d, dest, camp, isArg, liveDest, liveCamp⟩

/-- `on_call_end` finds the call of the destination whose timer has fired. -/
theorem Inv.supervised_call (inv : Inv ans s) (live : s.book.dests.get d = some dest)
    (armed : dest.tmr = true) : ∃ c call, dest.call = some c ∧ s.media.calls.get c = some call := by
  have hasCall := (inv.supervised d dest live).armed
  rw [armed] at hasCall
  obtain ⟨c, has⟩ := Option.isSome_iff_exists.mp hasCall
  obtain ⟨call, liveCall, -, -⟩ := inv.sound.owned d c ((owner_of_live live).trans has)
  exact ⟨c, call, has, liveCall⟩

theorem Inv.supervised_cases (inv : Inv ans s) (live : s.book.dests.get d = some dest)
    (armed : dest.tmr = true)
    (run : onCallEnd (s.disarmDest d) d now env = .ok s') :
    ∃ c call, dest.call = some c ∧ s.media.calls.get c = some call ∧
      EndResult (s.disarmDest d) now env d { dest with tmr := false } c call s' := by
  obtain ⟨c, call, has, liveCall⟩ := inv.supervised_call live armed
  have apart : call.pbxCall ≠ some c := fun eq => inv.sound.leg_ne liveCall eq rfl
  exact ⟨c, call, has, liveCall, onCallEnd_cases (dests_disarmDest live) has liveCall apart run⟩

/-- What the timer of a destination does about its call. -/
theorem Inv.timer_cases (inv : Inv ans s) (live : s.book.dests.get d = some dest)
    (has : dest.call = some c) (liveCall : s.media.calls.get c = some call)
    (step : dialer.step s (.destTimer d now env) s') :
    EndResult (s.disarmDest d) now env d { dest with tmr := false } c call s' := by
  obtain ⟨_, live', armed, run⟩ := supervised_of_step step
  obtain rfl := Option.some.inj (live.symm.trans live')
  obtain ⟨c', call', has', liveCall', result⟩ := inv.supervised_cases live armed run
  obtain rfl := Option.some.inj (has.symm.trans has')
  obtain rfl := Option.some.inj (liveCall.symm.trans liveCall')
  exact result

/-- `on_call_end` is called with the timer of the destination just disarmed. -/
theorem Inv.callEnd (inv : Inv ans s) (live : s.book.dests.get d = some dest)
    (armed : dest.tmr = true)
    (run : onCallEnd (s.disarmDest d) d now env = .ok s') : Inv ans s' := by
  obtain ⟨c, call, has, liveCall, result⟩ := inv.supervised_cases live armed run
  have hasCall := (inv.supervised d dest live).armed
  rw [armed] at hasCall
  have owned : s.book.owner d = some c := (owner_of_live live).trans has
  generalize disarmed : s.disarmDest d = u at result
  have state : u = { s with book := s.book.setDest d fun dest => { dest with tmr := false } } :=
    disarmed.symm
  have media : u.media = s.media := by rw [state]
  cases result with
  | @rearmed t _ rules =>
    obtain ⟨sound, phase⟩ := rules.sound (by rw [media]; exact inv.sound)
      (by rw [media]; exact inv.phase) owned (by rw [media]; exact liveCall)
    have final : t.setDest d (fun dest => { dest with tmr := true }) =
        { s with media := t.media, book := s.book.setDest d fun dest => { dest with tmr := true } } := by
      rw [rules.frame, state]
      simp only [Sys.setDest, Book.setDest, Heap.modify_modify]
    rw [final]
    refine inv.changeDest live ⟨rfl, rfl⟩ ⟨hasCall, fun waits => ?_⟩ ?_ phase
    · exact (inv.supervised d dest live).waiting waits
    · rw [has, ← owned, Function.update_eq_self]
      exact sound
  | @destroyed camp duration db media' _ liveCamp lasted rec why gone =>
    rw [media] at gone
    obtain ⟨sound, phase⟩ := inv.sound.disconnect inv.phase owned gone
    have same : u.book.remove d = s.book.remove d := by
      rw [state]
      exact Book.remove_setDest fun _ => rfl
    rw [same, state]
    exact inv.removeDest live sound phase
  | @requeued camp duration db media' _ liveCamp lasted rec why gone =>
    rw [media] at gone
    obtain ⟨sound, phase⟩ := inv.sound.disconnect inv.phase owned gone
    -- first the call is taken from it, then it moves to the list of destinations
    have idle : Inv ans { s with
        media := media'
        book := s.book.setDest d fun dest => { dest with tmr := false, call := none }
        db := db } :=
      inv.changeDest live ⟨rfl, rfl⟩ ⟨rfl, fun _ => rfl⟩ sound phase
    have liveIdle : (s.book.setDest d fun dest => { dest with tmr := false, call := none }).dests.get
        d = some { dest with tmr := false, call := none } := by
      simp [live]
    obtain ⟨r, -, on, -⟩ := inv.partition.linked d dest live
    have moved := idle.rearrange (Rearranged.moveTo _ d (.destinations dest.cp))
      (idle.partition.moveTo liveIdle rfl) (idle.supervised.moveTo liveIdle on rfl)
    rw [state]
    simpa only [Book.setDest, Heap.modify_modify] using moved

end CallEnd

/-! ## The pass -/

theorem flushDests_sound {l : List DestId} (sound : Sound s.media s.book.owner)
    (phase : AllInPhase ans s.media) (run : flushDests l s = .ok s') :
    Sound s'.media s'.book.owner ∧ AllInPhase ans s'.media := by
  induction l generalizing s with
  | nil =>
    cases run
    exact ⟨sound, phase⟩
  | cons d rest ih =>
    obtain ⟨dest, media, live, gone, run⟩ := flushDests_cons run
    have owner : Book.owner { s.book with dests := s.book.dests.free d } =
        Function.update s.book.owner d none :=
      owner_update (by simp [Book.owner]) fun e ne => by simp [Heap.get_free_ne ne]
    refine ih ?_ ?_ run
    · change Sound media (Book.owner { s.book with dests := s.book.dests.free d })
      rw [owner]
      cases has : dest.call with
      | none =>
        rw [has] at gone
        rw [gone, ← has, ← owner_of_live live, Function.update_eq_self]
        exact sound
      | some c =>
        rw [has] at gone
        exact sound.drop ((owner_of_live live).trans has) gone
    · cases has : dest.call with
      | none =>
        rw [has] at gone
        rw [gone]
        exact phase
      | some c =>
        rw [has] at gone
        obtain ⟨call, liveCall⟩ := memDerefCall_live gone
        obtain ⟨ids, dropped, -⟩ := memDerefCall_dropped sound liveCall gone
        refine phase.fewer fun p call' live' => ?_
        rw [dropped.calls] at live'
        split at live'
        · cases live'
        · exact live'

/-- What the end of a campaign leaves of the contacts and campaigns. -/
theorem memDerefCampaign_book (partition : Partition s.book)
    (run : memDerefCampaign s cp = .ok s') :
    (∀ e, s'.book.dests.get e = (s.book.dests.get e).filter fun dest => dest.cp ≠ cp) ∧
      (∀ cp', s'.book.camps.get cp' = if cp' = cp then none else s.book.camps.get cp') := by
  obtain ⟨camp, t, live, flushed, rfl⟩ := memDerefCampaign_cases run
  obtain ⟨dests, camps, -⟩ := flushDests_book flushed
  refine ⟨fun e => ?_, fun cp' => ?_⟩
  · change t.book.dests.get e = _
    rw [dests]
    change (if e ∈ camp.destinations ++ camp.processl then none else s.book.dests.get e) = _
    split
    next mem =>
      have onCp : ∃ dest, s.book.dests.get e = some dest ∧ dest.cp = cp := by
        rcases List.mem_append.mp mem with mem | mem
        · obtain ⟨dest, liveDest, onCp, -⟩ := partition.on_destinations live mem
          exact ⟨dest, liveDest, onCp⟩
        · obtain ⟨dest, liveDest, onCp, -⟩ := partition.on_processl live mem
          exact ⟨dest, liveDest, onCp⟩
      obtain ⟨dest, liveDest, onCp⟩ := onCp
      simp [liveDest, onCp, Option.filter]
    next notMem =>
      cases liveDest : s.book.dests.get e with
      | none => rfl
      | some dest =>
        have other : dest.cp ≠ cp := by
          rintro rfl
          obtain ⟨r, camp', -, isCp, liveCamp, mem⟩ := partition.linked e dest liveDest
          obtain rfl := Option.some.inj (live.symm.trans liveCamp)
          refine notMem (List.mem_append.mpr ?_)
          cases r with
          | destinations => exact .inl mem
          | processl => exact .inr mem
        simp [other, Option.filter]
  · change (t.book.camps.free cp).get cp' = _
    rw [Heap.get_free, camps]

namespace Inv

theorem gateway {row : GatewayRow} (inv : Inv ans s) (run : pullGateway s row = .ok s') :
    Inv ans s' := by
  rw [pullGateway_frame run]
  exact ⟨inv.partition, inv.supervised, ⟨inv.rostered.mem, inv.rostered.nodup⟩, inv.keyed,
    inv.sound, inv.phase⟩

theorem createCamp (inv : Inv ans s) : Inv ans s.createCamp where
  partition := inv.partition.create fun r => by cases r <;> rfl
  supervised := inv.supervised
  rostered :=
    { mem := fun cp => by
        change cp ∈ s.services ++ [s.book.camps.next] ↔
          ∃ camp, (s.book.camps.alloc {}).get cp = some camp
        rw [List.mem_append, inv.rostered.mem, Heap.get_alloc]
        by_cases here : cp = s.book.camps.next
        · simp [here]
        · simp [here]
      nodup := by
        refine List.nodup_append.mpr ⟨inv.rostered.nodup, by simp, fun a mem b isNew eq => ?_⟩
        obtain rfl : b = s.book.camps.next := by simpa using isNew
        obtain ⟨camp, live⟩ := (inv.rostered.mem a).mp mem
        exact Heap.ne_next live eq }
  keyed :=
    { live := fun cp camp a live mem => by
        rcases createCamp_camps live with ⟨-, rfl⟩ | ⟨-, live⟩
        · cases mem
        · exact inv.keyed.live cp camp a live mem
      apart := fun cp cp' camp camp' a live live' mem mem' => by
        rcases createCamp_camps live with ⟨-, rfl⟩ | ⟨-, live⟩
        · cases mem
        · rcases createCamp_camps live' with ⟨-, rfl⟩ | ⟨-, live'⟩
          · cases mem'
          · exact inv.keyed.apart cp cp' camp camp' a live live' mem mem' }
  sound := inv.sound
  phase := inv.phase

theorem destroyCamp (inv : Inv ans s) (run : memDerefCampaign s cp = .ok s') : Inv ans s' := by
  obtain ⟨dests, camps⟩ := memDerefCampaign_book inv.partition run
  obtain ⟨camp, t, live, flushed, rfl⟩ := memDerefCampaign_cases run
  obtain ⟨sound, phase⟩ := flushDests_sound
    (s := { s with services := s.services.erase cp }) inv.sound inv.phase flushed
  have frame := flushDests_frame flushed
  refine ⟨inv.partition.destroy dests camps, inv.supervised.mono fun e dest live => ?_, ?_, ?_,
    sound, phase⟩
  · rw [dests] at live
    exact (Option.filter_eq_some_iff.mp live).1
  · have services : t.services = s.services.erase cp := by rw [frame]
    refine ⟨fun cp' => ?_, ?_⟩
    · change cp' ∈ t.services ↔ _
      rw [services, inv.rostered.nodup.mem_erase_iff, inv.rostered.mem, camps]
      by_cases here : cp' = cp <;> simp [here]
    · change t.services.Nodup
      rw [services]
      exact inv.rostered.nodup.erase cp
  · have actions : t.actions = s.actions := by rw [frame]
    change Keyed (flushActions t.actions camp.actions) _
    rw [actions]
    exact inv.keyed.destroy live camps

theorem readCampaign {row : CampaignRow} (inv : Inv ans s)
    (run : Autodialer.readCampaign s cp row = .ok s') : Inv ans s' := by
  obtain ⟨camp, -, ⟨-, -, run⟩ | ⟨-, gateway, pbxGateway, rfl⟩⟩ := readCampaign_cases run
  · have head : Inv ans (s.setCamp cp fun camp => camp.readHead row) :=
      inv.setCamp fun _ => ⟨rfl, rfl, rfl⟩
    exact head.destroyCamp run
  · exact inv.setCamp fun _ => ⟨rfl, rfl, rfl⟩

theorem campaign {row : CampaignRow} (inv : Inv ans s) (run : pullCampaign s row = .ok s') :
    Inv ans s' := by
  rcases pullCampaign_cases run with ⟨rfl, -⟩ | ⟨cp, -, -, run⟩ | ⟨-, -, run⟩
  · exact inv
  · exact inv.readCampaign run
  · exact inv.createCamp.readCampaign run

/-- A contact is loaded into a live campaign. -/
theorem contact (inv : Inv ans s) (row : CallRow) (live : s.book.camps.get cp = some camp) :
    Inv ans { s with book := loadContact cp s.book row } ∧
      ∃ camp', (loadContact cp s.book row).camps.get cp = some camp' ∧
        camp'.actions = camp.actions := by
  have append : loadContact cp s.book row = _ := listAppend_alloc s.book (.destinations cp) rfl
  have camps : ∀ cp', (loadContact cp s.book row).camps.get cp' = if cp' = cp then
      (s.book.camps.get cp').map fun camp =>
        camp.edit (.destinations cp) (· ++ [s.book.dests.next])
      else s.book.camps.get cp' := by
    intro cp'
    rw [append]
    rfl
  refine ⟨⟨inv.partition.load live rfl rfl, inv.supervised.load rfl rfl rfl, ?_, ?_, ?_, inv.phase⟩,
    ?_⟩
  · refine inv.rostered.congr rfl fun cp' => ?_
    change ((loadContact cp s.book row).camps.get cp').isSome = _
    rw [camps]
    split
    · rw [Option.isSome_map]
    · rfl
  · refine inv.keyed.fewer fun cp' camp' live' => ?_
    change (loadContact cp s.book row).camps.get cp' = _ at live'
    rw [camps] at live'
    split at live'
    · obtain ⟨old, liveOld, rfl⟩ := Option.map_eq_some_iff.mp live'
      exact ⟨old, liveOld, rfl⟩
    · exact ⟨camp', live', rfl⟩
  · exact inv.sound.congr_own fun d => congrFun (owner_loadContact cp s.book row) d
  · exact ⟨camp.edit (.destinations cp) (· ++ [s.book.dests.next]), by rw [camps, if_pos rfl, live]; rfl,
      rfl⟩

theorem contacts (inv : Inv ans s) (rows : List CallRow) (live : s.book.camps.get cp = some camp) :
    Inv ans { s with book := rows.foldl (loadContact cp) s.book } ∧
      ∃ camp', (rows.foldl (loadContact cp) s.book).camps.get cp = some camp' ∧
        camp'.actions = camp.actions := by
  induction rows generalizing s camp with
  | nil => exact ⟨inv, camp, live, rfl⟩
  | cons row rest ih =>
    obtain ⟨loaded, camp', live', same⟩ := inv.contact row live
    obtain ⟨done, camp'', live'', same'⟩ := ih loaded live'
    exact ⟨done, camp'', live'', same'.trans same⟩

theorem service {calls : Nat → Option (List CallRow)} {actions : Nat → Option (List ActionRow)}
    (inv : Inv ans s) (run : pullService calls actions s cp = .ok s') : Inv ans s' := by
  obtain ⟨camp, live, ⟨rfl, -⟩ | ⟨-, rows, acts, l, -, loaded, rfl⟩⟩ := pullService_cases run
  · exact inv
  · obtain ⟨done, camp', live', same⟩ := inv.contacts rows live
    rw [← same] at loaded
    refine ⟨?_, done.supervised, ?_, done.keyed.reload live' loaded, done.sound, done.phase⟩
    · refine done.partition.setCamp fun camp r _ => ?_
      cases r <;> exact List.Perm.refl _
    · refine done.rostered.congr rfl fun cp' => ?_
      change (Heap.get (Heap.modify _ cp _) cp').isSome = _
      rw [Heap.get_modify]
      split
      · rw [Option.isSome_map]
      · rfl

theorem gateways {rows : List GatewayRow} (inv : Inv ans s) (run : pullGateways s rows = .ok s') :
    Inv ans s' :=
  Fallible.foldlM_rule (I := fun _ t => Inv ans t) (fun _ _ _ _ inv run => inv.gateway run) inv run

theorem campaigns {rows : List CampaignRow} (inv : Inv ans s)
    (run : pullCampaigns s rows = .ok s') : Inv ans s' :=
  Fallible.foldlM_rule (I := fun _ t => Inv ans t) (fun _ _ _ _ inv run => inv.campaign run) inv run

theorem pull {snap : Snapshot} (inv : Inv ans s) (run : pullGroups s snap = .ok s') : Inv ans s' :=
  pullGroups_rule (I := Inv ans) (fun _ _ _ inv run => inv.gateway run)
    (fun _ _ _ inv run => inv.campaign run) (fun _ _ _ _ _ inv _ run => inv.service run) inv run

end Inv

/-! ## Steps and runs -/

/-- In the run with history `h` the call `c` was answered from `a`: while it was
not established, `establish_handler` took an answer with a common format. -/
def Answered (h : List (Sys × Event)) (c : CallId) (a : Addr) : Prop :=
  ∃ t env call, (t, Event.establish c env) ∈ h ∧ t.media.calls.get c = some call ∧
    call.callStatus ≠ .established ∧ env.answer.format.isSome = true ∧ env.answer.raddr = a

theorem Answered.append {h : List (Sys × Event)} {a : Addr} (answered : Answered h c a)
    (k : List (Sys × Event)) : Answered (h ++ k) c a := by
  obtain ⟨t, env, call, mem, rest⟩ := answered
  exact ⟨t, env, call, List.mem_append_left k mem, rest⟩

/-- `ans'` has the answers in `ans`, and the one that the event brings. -/
structure Hears (s : Sys) (e : Event) (ans ans' : CallId → Addr → Prop) : Prop where
  more : ∀ c a, ans c a → ans' c a
  answer : ∀ c env call, e = .establish c env → s.media.calls.get c = some call →
    call.callStatus ≠ .established → env.answer.format.isSome = true → ans' c env.answer.raddr

/-- The history hears every answer of its run. -/
theorem Hears.history (h : List (Sys × Event)) (s : Sys) (e : Event) :
    Hears s e (Answered h) (Answered (h ++ [(s, e)])) where
  more c a old := old.append _
  answer c env call isEvent live notUp format :=
    ⟨s, env, call, by simp [isEvent], live, notUp, format, rfl⟩

/-- Nothing is said about who has answered. -/
theorem Hears.anything (s : Sys) (e : Event) : Hears s e (fun _ _ => True) (fun _ _ => True) :=
  ⟨fun _ _ _ => trivial, fun _ _ _ _ _ _ _ => trivial⟩

namespace Inv

theorem establish {env : EstablishEnv} (inv : Inv ans s) (hears : Hears s (.establish c env) ans ans')
    (run : establishHandler s c env = .ok s') : Inv ans' s' := by
  obtain ⟨call, m, db, live, -, result, rfl⟩ := establishHandler_cases run
  refine inv.callback (result.sound live inv.sound)
    ((result.phase live inv.phase).mono fun p a heard => ?_)
  rcases heard with old | ⟨rfl, rfl, format, notUp⟩
  · exact hears.more p a old
  · exact hears.answer p env call rfl live notUp format

theorem rtp {rs : SessionId} {mb : List UInt8} (inv : Inv ans s)
    (run : rtpRecvHandler s rs mb = .ok s') : Inv ans s' := by
  have forward : ∀ {t : Sys}, Inv ans t → Inv ans (rtpForward t rs mb) := by
    intro t inv
    rcases rtpForward_cases t rs mb with ⟨-, eq⟩ | ⟨u, -, eq⟩
    · rw [eq]
      exact inv
    · rw [eq]
      have sent := inv.sound.send (.datagram u (t.media.rtp u).remoteIp mb)
      have forwarded : Inv ans { t with media := t.media.send _, db := t.db } :=
        inv.callback sent inv.phase
      exact forwarded
  rcases rtpRecvHandler_cases run with rfl | rfl | ⟨c, call, telev, -, isArg, live, rest⟩
  · exact inv
  · exact forward inv
  · have sound := inv.sound.setSession (f := fun r => { r with telev := telev }) isArg
      ⟨rfl, rfl, rfl, rfl⟩
    have heard : Inv ans { s with media := s.media.setSession rs _, db := s.db } :=
      inv.callback sound inv.phase
    rcases rest with rfl | ⟨f, presses, rfl⟩
    · exact forward heard
    · refine heard.setCall (fun call => ?_) fun call _ phase => ?_
      · rcases presses with presses | same
        · obtain ⟨_, _, _, _, eq, -⟩ := presses call
          rw [eq]
          exact ⟨rfl, rfl, rfl, rfl, rfl, rfl⟩
        · rw [same]
      · rcases presses with presses | same
        · obtain ⟨action, key, type, ended, eq, stays⟩ := presses call
          rw [eq]
          refine ⟨fun up notEnded => phase.answered up ?_, phase.forwarded, phase.heard⟩
          cases was : call.ended with
          | false => rfl
          | true =>
            rw [stays was] at notEnded
            cases notEnded
        · rw [same]
          exact phase

theorem calledBack {e : Event} (inv : Inv ans s) (hears : Hears s e ans ans')
    (callback : e.isCallback = true) (run : s.run e = .ok s') : Inv ans' s' := by
  have kept : Inv ans' s := inv.mono hears.more
  -- a write to fields of a call that are of no account here
  have quiet : ∀ {t : Sys} {c : CallId} {f : Call → Call}, Inv ans' t →
      (∀ call, SameLinks call (f call) ∧ (f call).callStatus = call.callStatus ∧
        ((f call).ended = false → call.ended = false) ∧ (f call).forwarded = call.forwarded) →
      Inv ans' (t.setCall c f) := by
    intro t c f inv same
    refine inv.setCall (fun call => (same call).1) fun call _ phase => ⟨?_, ?_, ?_⟩
    · rw [(same call).2.1, (same call).1.rtpDest]
      exact fun up notEnded => phase.answered up ((same call).2.2.1 notEnded)
    · rw [(same call).1.pbxCall, (same call).2.1, (same call).2.2.2]
      exact phase.forwarded
    · rw [(same call).1.rtpDest]
      exact phase.heard
  cases e with
  | progress c scode =>
    obtain ⟨db, -, rfl⟩ := progressHandler_cases run
    have heard : Inv ans' (s.setCall c fun call => { call with respCode := scode }) :=
      quiet kept fun _ => ⟨⟨rfl, rfl, rfl, rfl, rfl, rfl⟩, rfl, fun same => same, rfl⟩
    exact heard.callback heard.sound heard.phase
  | establish c env => exact inv.establish hears run
  | close c err scode =>
    obtain ⟨respCode, rfl⟩ := closeHandler_cases run
    have ended : Inv ans' (s.setCall c fun call => { call with sess := .terminated }) :=
      quiet kept fun _ => ⟨⟨rfl, rfl, rfl, rfl, rfl, rfl⟩, rfl, fun same => same, rfl⟩
    exact quiet ended fun _ => ⟨⟨rfl, rfl, rfl, rfl, rfl, rfl⟩, rfl, nofun, rfl⟩
  | rtp rs mb => exact kept.rtp run
  | played c =>
    cases run
    exact quiet kept fun _ => ⟨⟨rfl, rfl, rfl, rfl, rfl, rfl⟩, rfl, fun same => same, rfl⟩
  | _ => cases callback

end Inv

/-- Every step keeps the invariant. -/
theorem step_inv_hears {e : Event} (inv : Inv ans s) (hears : Hears s e ans ans')
    (step : dialer.step s e s') : Inv ans' s' := by
  have kept : Inv ans' s := inv.mono hears.more
  cases step_cases step with
  | pulled run => exact kept.pull run
  | ticked ticks run => exact (kept.ticks ticks).tick run
  | supervised live armed run => exact kept.callEnd live armed run
  | calledBack callback _ run => exact inv.calledBack hears callback run
  | lost => exact kept.requeued s.msgq s.torn _

theorem step_inv {h : List (Sys × Event)} {e : Event} (inv : Inv (Answered h) s)
    (step : dialer.step s e s') : Inv (Answered (h ++ [(s, e)])) s' :=
  step_inv_hears inv (.history h s e) step

/-- The invariant holds at the end of every run. -/
theorem execution_inv {h : List (Sys × Event)} (run : dialer.Execution h s) : Inv (Answered h) s :=
  run.induct (C := fun _ _ => True) (I := fun h s => Inv (Answered h) s) (fun _ _ => trivial)
    (fun _ ⟨n, audioPath, _, eq⟩ => eq ▸ Inv.boot n audioPath)
    (fun _ _ _ _ _ inv step _ => step_inv inv step)

theorem reachable_inv (reach : dialer.Reachable s) : ∃ ans, Inv ans s :=
  let ⟨_, run⟩ := reach
  ⟨_, execution_inv run⟩

end Autodialer
