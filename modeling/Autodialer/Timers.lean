import Autodialer.Lib.Agenda
import Autodialer.LinksRun

/-!
# Timers (`tmr.c`)

The timers of a thread are linked on one list, in the order in which they are due. `tmrStart` and
`tmrPop` are translated with the list in memory (`Links`). The time is what `tmr_jiffies` returns, in
milliseconds; nothing is assumed of it, it may also run backwards.

* `timers_simulates`: a step of the timers is one of a timer service (`Agenda`), as long as a timer
  is zeroed only while it is off the list.
* `Scheduled.tmrInit_linked`: what is left of the list when a timer on it is zeroed.
* `Scheduled.tmrInit_restarted`: which timers are lost when that timer is started again.
-/

namespace Autodialer

/-- `struct tmr` without its list element; `th` is the handler with its argument. -/
structure Tmr (α : Type) where
  th : Option α := none
  jfs : Nat := 0

/-- The timers and their list; `polling` is the variable `jfs` of `tmr_poll` while it runs. The
list element of a timer has the address of the timer. -/
structure Timers (α : Type) where
  links : Links Unit := {}
  tmr : LeId → Tmr α := fun _ => {}
  polling : Option Nat := none

namespace Timers

variable {α : Type}

/-- What a handler of `list_apply` reads through `le->data`. -/
def dueOf (s : Timers α) (le : LeId) : Option Nat :=
  (s.links.le le).data.map fun tmr => (s.tmr tmr).jfs

/-- `inspos_handler` -/
def insposHandler (s : Timers α) (now : Nat) (le : LeId) : Bool := (s.dueOf le).any (· ≤ now)

/-- `inspos_handler_0` -/
def insposHandler0 (s : Timers α) (now : Nat) (le : LeId) : Bool := (s.dueOf le).any (now < ·)

/-- `tmr_init`: the memory of the timer is zeroed, its list element with it. -/
def tmrInit (s : Timers α) (tmr : LeId) : Timers α :=
  { s with links := s.links.setLe tmr fun _ => {}, tmr := Function.update s.tmr tmr {} }

/-- The beginning of `tmr_start`: a running timer leaves the list. -/
def tmrStop (s : Timers α) (tmr : LeId) : Timers α :=
  { s with
    links := if (s.tmr tmr).th.isSome then s.links.listUnlink tmr else s.links
    tmr := Function.update s.tmr tmr { s.tmr tmr with th := none } }

/-- The rest of `tmr_start` for a handler that is not null: the timer is due at `jfs` and goes to its
place on the list. -/
def tmrInsert (s : Timers α) (fuel : Nat) (tmr : LeId) (delay jfs : Nat) (th : α) :
    Option (Timers α) :=
  let s := { s with tmr := Function.update s.tmr tmr { th := some th, jfs := jfs } }
  if delay = 0 then
    match s.links.listApply () true (s.insposHandler0 jfs) fuel with
    | none => none
    | some (some le) => some { s with links := s.links.listInsertBefore () le tmr (some tmr) }
    | some none => some { s with links := s.links.listAppend () tmr (some tmr) }
  else
    match s.links.listApply () false (s.insposHandler jfs) fuel with
    | none => none
    | some (some le) => some { s with links := s.links.listInsertAfter () le tmr (some tmr) }
    | some none => some { s with links := s.links.listPrepend () tmr (some tmr) }

/-- `tmr_start` at the time `now`; `tmr_cancel` has no handler. `none` says that the loop over the
list needs more steps than `fuel`. -/
def tmrStart (s : Timers α) (fuel : Nat) (now : Nat) (tmr : LeId) (delay : Nat) (th : Option α) :
    Option (Timers α) :=
  match th with
  | none => some (s.tmrStop tmr)
  | some th => (s.tmrStop tmr).tmrInsert fuel tmr delay ((delay + now) % 2 ^ 64) th

/-- The timer at the head of the list. -/
def headTimer (s : Timers α) : Option LeId :=
  (s.links.list ()).head.bind fun le => (s.links.le le).data

/-- The loop body of `tmr_poll` up to the call of the handler: the timer and the handler, or nothing
if the loop ends. -/
def tmrPop (s : Timers α) (jfs : Nat) : Option (LeId × Option α × Timers α) :=
  match s.headTimer with
  | none => none
  | some tmr =>
    if jfs < (s.tmr tmr).jfs then none
    else
      some (tmr, (s.tmr tmr).th,
        { s with
          links := s.links.listUnlink tmr
          tmr := Function.update s.tmr tmr { s.tmr tmr with th := none } })

end Timers

/-- An idle timer is left as it is. -/
theorem Timers.tmrStop_idle {α : Type} {s : Timers α} {tmr : LeId} (idle : (s.tmr tmr).th = none) :
    s.tmrStop tmr = s := by
  have same : { s.tmr tmr with th := none } = s.tmr tmr := by rw [← idle]
  rw [Timers.tmrStop, idle, same, Function.update_eq_self]
  rfl

/-- A timer goes behind the one at which the loop from the tail stops. -/
theorem Timers.tmrInsert_behind {α : Type} {s : Timers α} {fuel delay jfs : Nat} {le tmr : LeId}
    {th : α} (delayed : delay ≠ 0)
    (stops : s.links.listApply () false (Timers.insposHandler
      { s with tmr := Function.update s.tmr tmr { th := some th, jfs := jfs } } jfs) fuel =
        some (some le)) :
    s.tmrInsert fuel tmr delay jfs th = some { s with
      links := s.links.listInsertAfter () le tmr (some tmr)
      tmr := Function.update s.tmr tmr { th := some th, jfs := jfs } } := by
  simp only [Timers.tmrInsert, if_neg delayed, stops]

/-- More steps than the loop needs make no difference. -/
theorem Timers.tmrStart_mono {α : Type} {s s' : Timers α} {fuel fuel' now delay : Nat} {tmr : LeId}
    {th : Option α} (run : s.tmrStart fuel now tmr delay th = some s') (more : fuel ≤ fuel') :
    s.tmrStart fuel' now tmr delay th = some s' := by
  cases th with
  | none => exact run
  | some th =>
    unfold tmrStart tmrInsert at run ⊢
    simp only at run ⊢
    split
    next zero =>
      rw [if_pos zero] at run
      split at run
      · cases run
      next le found => rw [Links.listApply_mono found more]; exact run
      next found => rw [Links.listApply_mono found more]; exact run
    next pos =>
      rw [if_neg pos] at run
      split at run
      · cases run
      next le found => rw [Links.listApply_mono found more]; exact run
      next found => rw [Links.listApply_mono found more]; exact run

/-! ## Runs -/

/-- What happens to the timers of a thread. A handler that `tmr_poll` calls may itself start and
cancel timers: its steps come after the `pop` that called it. -/
inductive TimerEvent (α : Type)
  | init (tmr : LeId)
  | start (tmr : LeId) (delay : Nat) (th : α) (now : Nat)
  | cancel (tmr : LeId)
  | poll (jfs : Nat)
  | pop (tmr : LeId) (th : Option α)
  /-- `tmr_poll` leaves its loop. -/
  | done

variable {α : Type}

/-- A timer is zeroed only while it is off the list. `tmr_init` does not look, and
`campaign_service_handler` calls it for a timer that may be running: for what happens then see
`Scheduled.tmrInit_linked` and `Scheduled.tmrInit_restarted`. -/
inductive TimerStep : Timers α → TimerEvent α → Timers α → Prop
  | init {s : Timers α} {tmr : LeId} : (s.links.le tmr).list = none →
      TimerStep s (.init tmr) (s.tmrInit tmr)
  | start {s s' : Timers α} {fuel now delay : Nat} {tmr : LeId} {th : α} :
      s.tmrStart fuel now tmr delay (some th) = some s' → TimerStep s (.start tmr delay th now) s'
  | cancel {s s' : Timers α} {fuel now : Nat} {tmr : LeId} :
      s.tmrStart fuel now tmr 0 none = some s' → TimerStep s (.cancel tmr) s'
  | poll {s : Timers α} {jfs : Nat} : s.polling = none →
      TimerStep s (.poll jfs) { s with polling := some jfs }
  | pop {s s' : Timers α} {jfs : Nat} {tmr : LeId} {th : Option α} : s.polling = some jfs →
      s.tmrPop jfs = some (tmr, th, s') → TimerStep s (.pop tmr th) s'
  | done {s : Timers α} {jfs : Nat} : s.polling = some jfs → s.tmrPop jfs = none →
      TimerStep s .done { s with polling := none }

def timers (α : Type) : Lts (Timers α) (TimerEvent α) := ⟨fun s => s = {}, TimerStep⟩

/-- What the event is to a timer service. -/
def TimerEvent.agenda : TimerEvent α → Agenda.Event LeId α
  | .init tmr | .cancel tmr => .disarm tmr
  | .start tmr delay th now => .arm tmr ((delay + now) % 2 ^ 64) th
  | .poll jfs => .poll jfs
  | .pop tmr (some th) => .fire tmr th
  | .pop tmr none => .disarm tmr
  | .done => .idle

/-! ## The list is the agenda, in order -/

open Agenda (Alarm)

/-- The lists of a memory with one list. -/
def oneList (l : List LeId) : Unit → List LeId := fun _ => l

@[simp] theorem oneList_apply (l : List LeId) (u : Unit) : oneList l u = l := rfl

@[simp] theorem update_oneList {l l' : List LeId} :
    Function.update (oneList l) () l' = oneList l' := by
  funext u
  simp

/-- The list `l` holds the armed timers of the agenda in the order in which they go off. -/
structure Scheduled (s : Timers α) (l : List LeId) (a : Agenda.State LeId α) : Prop where
  rep : Represents s.links (oneList l)
  data_eq : ∀ t ∈ l, (s.links.le t).data = some t
  mem_iff : ∀ t, t ∈ l ↔ (s.tmr t).th.isSome
  armed : ∀ t th, (s.tmr t).th = some th →
    ∃ n < a.stamp, a.alarm t = some ⟨(s.tmr t).jfs, n, th⟩
  unarmed : ∀ t, (s.tmr t).th = none → a.alarm t = none
  sorted : l.Pairwise fun t u => ∀ p q, a.alarm t = some p → a.alarm u = some q → p.Before q
  polling_eq : s.polling = a.polling

namespace Scheduled

variable {s s' : Timers α} {l xs ys : List LeId} {a : Agenda.State LeId α} {t : LeId} {th : α}
  {jfs : Nat}

theorem mem_armed (sched : Scheduled s l a) (mem : t ∈ l) :
    ∃ th n, (s.tmr t).th = some th ∧ n < a.stamp ∧ a.alarm t = some ⟨(s.tmr t).jfs, n, th⟩ := by
  obtain ⟨th, has⟩ := Option.isSome_iff_exists.mp ((sched.mem_iff t).mp mem)
  obtain ⟨n, less, alarm⟩ := sched.armed t th has
  exact ⟨th, n, has, less, alarm⟩

/-- The timers on the list are due one after the other. -/
theorem due_sorted (sched : Scheduled s l a) :
    l.Pairwise fun t u => (s.tmr t).jfs ≤ (s.tmr u).jfs := by
  refine sched.sorted.imp_of_mem fun {t u} memT memU before => ?_
  obtain ⟨_, _, -, -, alarmT⟩ := sched.mem_armed memT
  obtain ⟨_, _, -, -, alarmU⟩ := sched.mem_armed memU
  rcases before _ _ alarmT alarmU with lt | ⟨eq, -⟩
  · exact Nat.le_of_lt lt
  · exact Nat.le_of_eq eq

/-- A timer without a handler is off the list, and disarming it does nothing. -/
theorem disarm_idle (sched : Scheduled s l a) (idle : (s.tmr t).th = none) : a.disarm t = a := by
  unfold Agenda.State.disarm
  rw [← sched.unarmed t idle, Function.update_eq_self]

theorem off_list (sched : Scheduled s l a) (idle : (s.tmr t).th = none) : t ∉ l := by
  rw [sched.mem_iff, idle]
  exact Bool.false_ne_true

/-- A timer is taken off the list. -/
theorem unlink (sched : Scheduled s (xs ++ t :: ys) a) :
    Scheduled
      { s with
        links := s.links.listUnlink t
        tmr := Function.update s.tmr t { s.tmr t with th := none } }
      (xs ++ ys) (a.disarm t) := by
  have split : oneList (xs ++ t :: ys) () = xs ++ t :: ys := rfl
  have once := sched.rep.once split
  have ne : ∀ u ∈ xs ++ ys, u ≠ t := fun u mem same => once (same ▸ mem)
  refine ⟨?_, ?_, ?_, ?_, ?_, ?_, sched.polling_eq⟩
  · have unlinked := sched.rep.listUnlink split
    rwa [update_oneList] at unlinked
  · intro u mem
    rw [sched.rep.data_listUnlink split]
    exact sched.data_eq u (by simp at mem ⊢; tauto)
  · intro u
    by_cases self : u = t
    · subst self
      simpa using once
    · simpa [self] using sched.mem_iff u
  · intro u th has
    by_cases self : u = t
    · subst self
      simp at has
    · simp only [Function.update_of_ne self] at has ⊢
      simpa [Agenda.State.disarm, Function.update_of_ne self] using sched.armed u th has
  · intro u idle
    by_cases self : u = t
    · subst self
      exact Function.update_self ..
    · simp only [Function.update_of_ne self] at idle
      simpa [Agenda.State.disarm, Function.update_of_ne self] using sched.unarmed u idle
  · have sublist : (xs ++ ys).Sublist (xs ++ t :: ys) :=
      (List.Sublist.refl xs).append (List.sublist_cons_self t ys)
    refine (sched.sorted.sublist sublist).imp_of_mem fun {u v} memU memV before => ?_
    simpa [Agenda.State.disarm, Function.update_of_ne (ne u memU),
      Function.update_of_ne (ne v memV)] using before

theorem unlink_head (sched : Scheduled s (t :: ys) a) :
    Scheduled
      { s with
        links := s.links.listUnlink t
        tmr := Function.update s.tmr t { s.tmr t with th := none } }
      ys (a.disarm t) := by
  have sched : Scheduled s ([] ++ t :: ys) a := sched
  exact sched.unlink

/-- The beginning of `tmr_start` disarms the timer. -/
theorem stop (sched : Scheduled s l a) (t : LeId) :
    Scheduled (s.tmrStop t) (l.erase t) (a.disarm t) := by
  by_cases running : (s.tmr t).th.isSome = true
  · rw [Timers.tmrStop, if_pos running]
    obtain ⟨xs, ys, rfl⟩ := List.append_of_mem ((sched.mem_iff t).mpr running)
    have split : oneList (xs ++ t :: ys) () = xs ++ t :: ys := rfl
    have once := sched.rep.once split
    rw [List.erase_append_right _ fun mem => once (List.mem_append_left _ mem),
      List.erase_cons_head]
    exact sched.unlink
  · have idle : (s.tmr t).th = none := by simpa using running
    rw [Timers.tmrStop_idle idle, sched.disarm_idle idle,
      List.erase_of_not_mem (sched.off_list idle)]
    exact sched

/-- A timer is put between those that are due before it or at the same time, and the others. -/
theorem insert {m : Links Unit} (sched : Scheduled s (xs ++ ys) a) (off : t ∉ xs ++ ys)
    (earlier : ∀ u ∈ xs, (s.tmr u).jfs ≤ jfs) (later : ∀ u ∈ ys, jfs < (s.tmr u).jfs)
    (rep : Represents m (oneList (xs ++ t :: ys)))
    (data : ∀ u, (m.le u).data = if u = t then some t else (s.links.le u).data) :
    Scheduled { s with links := m, tmr := Function.update s.tmr t { th := some th, jfs := jfs } }
      (xs ++ t :: ys) (a.arm t jfs th) := by
  have ne : ∀ u ∈ xs ++ ys, u ≠ t := fun u mem same => off (same ▸ mem)
  have alarm : ∀ u, u ≠ t → (a.arm t jfs th).alarm u = a.alarm u := fun u other =>
    Function.update_of_ne other _ _
  have self : (a.arm t jfs th).alarm t = some ⟨jfs, a.stamp, th⟩ := Function.update_self ..
  refine ⟨rep, ?_, ?_, ?_, ?_, ?_, sched.polling_eq⟩
  · intro u mem
    rw [data]
    split
    next here => rw [here]
    next other => exact sched.data_eq u (by simp [other] at mem ⊢; exact mem)
  · intro u
    by_cases here : u = t
    · subst here
      simp
    · simp [here, ← sched.mem_iff]
  · intro u th' has
    by_cases here : u = t
    · subst here
      obtain rfl : th = th' := by simpa using has
      exact ⟨a.stamp, Nat.lt_succ_self _, by simp⟩
    · simp only [Function.update_of_ne here] at has ⊢
      obtain ⟨n, less, eq⟩ := sched.armed u th' has
      exact ⟨n, Nat.lt_succ_of_lt less, (alarm u here).trans eq⟩
  · intro u idle
    by_cases here : u = t
    · subst here
      simp at idle
    · simp only [Function.update_of_ne here] at idle
      exact (alarm u here).trans (sched.unarmed u idle)
  · obtain ⟨sortedX, sortedY, across⟩ := List.pairwise_append.mp sched.sorted
    have old : ∀ {u v}, u ∈ xs ++ ys → v ∈ xs ++ ys →
        (∀ p q, a.alarm u = some p → a.alarm v = some q → p.Before q) →
        ∀ p q, (a.arm t jfs th).alarm u = some p → (a.arm t jfs th).alarm v = some q →
          p.Before q := by
      intro u v memU memV before p q
      rw [alarm u (ne u memU), alarm v (ne v memV)]
      exact before p q
    refine List.pairwise_append.mpr ⟨?_, List.pairwise_cons.mpr ⟨?_, ?_⟩, ?_⟩
    · exact sortedX.imp_of_mem fun memU memV => old (by simp [memU]) (by simp [memV])
    · intro v memV p q alarmT alarmV
      rw [self] at alarmT
      rw [alarm v (ne v (by simp [memV]))] at alarmV
      obtain rfl := Option.some.inj alarmT
      obtain ⟨_, _, -, -, alarmV'⟩ := sched.mem_armed (t := v) (by simp [memV])
      obtain rfl := Option.some.inj (alarmV'.symm.trans alarmV)
      exact .inl (later v memV)
    · exact sortedY.imp_of_mem fun memU memV => old (by simp [memU]) (by simp [memV])
    · intro u memU v memV
      rcases List.mem_cons.mp memV with rfl | memV
      · intro p q alarmU alarmT
        rw [self] at alarmT
        rw [alarm u (ne u (by simp [memU]))] at alarmU
        obtain rfl := Option.some.inj alarmT
        obtain ⟨_, n, -, less, alarmU'⟩ := sched.mem_armed (t := u) (by simp [memU])
        obtain rfl := Option.some.inj (alarmU'.symm.trans alarmU)
        rcases Nat.lt_or_eq_of_le (earlier u memU) with lt | eq
        · exact .inl lt
        · exact .inr ⟨eq, less⟩
      · exact old (by simp [memU]) (by simp [memV]) (across u memU v memV)

/-- The place of a timer that is due at `jfs`. -/
theorem place (sched : Scheduled s l a) (jfs : Nat) :
    ∃ xs ys, l = xs ++ ys ∧ (∀ u ∈ xs, (s.tmr u).jfs ≤ jfs) ∧ ∀ u ∈ ys, jfs < (s.tmr u).jfs := by
  have sorted := sched.due_sorted
  clear sched
  induction l with
  | nil => exact ⟨[], [], rfl, by simp, by simp⟩
  | cons t l ih =>
    obtain ⟨first, rest⟩ := List.pairwise_cons.mp sorted
    obtain ⟨xs, ys, rfl, earlier, later⟩ := ih rest
    by_cases early : (s.tmr t).jfs ≤ jfs
    · exact ⟨t :: xs, ys, rfl, by simpa [early] using earlier, later⟩
    · have late := Nat.lt_of_not_le early
      refine ⟨[], t :: (xs ++ ys), rfl, by simp, fun u mem => ?_⟩
      rcases List.mem_cons.mp mem with rfl | mem
      · exact late
      · exact Nat.lt_of_lt_of_le late (first u mem)

/-- A search that passes over `xs` and stops at any element of `ys`. -/
theorem find?_skip {p : LeId → Bool} (skip : ∀ x ∈ xs, p x = false) (stop : ∀ y ∈ ys, p y = true) :
    (xs ++ ys).find? p = ys.head? := by
  have none : xs.find? p = none := List.find?_eq_none.mpr fun x mem => by simp [skip x mem]
  rw [List.find?_append, none, Option.none_or]
  cases ys with
  | nil => rfl
  | cons y ys => rw [List.find?_cons_of_pos (stop y (by simp)), List.head?_cons]

/-- What `tmr_start` does, if its loop may take a step for every timer: seen from the head it puts
the timer in front of the first one that is due later, and seen from the tail behind the last one
that is not, which is the same place. -/
theorem tmrInsert (sched : Scheduled s l a) (idle : (s.tmr t).th = none) (delay jfs : Nat) (th : α)
    {fuel : Nat} (enough : l.length ≤ fuel) :
    ∃ s' l', s.tmrInsert fuel t delay jfs th = some s' ∧ Scheduled s' l' (a.arm t jfs th) := by
  obtain ⟨xs, ys, rfl, earlier, later⟩ := sched.place jfs
  have off := sched.off_list idle
  have free : (s.links.le t).list = none := sched.rep.list_none_iff.mpr fun _ => off
  have due : ∀ u ∈ xs ++ ys,
      ({ s with tmr := Function.update s.tmr t { th := some th, jfs := jfs } }).dueOf u =
        some (s.tmr u).jfs := by
    intro u mem
    have ne : u ≠ t := fun same => off (same ▸ mem)
    simp [Timers.dueOf, sched.data_eq u mem, ne]
  unfold Timers.tmrInsert
  by_cases now : delay = 0
  · have found : (xs ++ ys).find? (Timers.insposHandler0 { s with
        tmr := Function.update s.tmr t { th := some th, jfs := jfs } } jfs) = ys.head? :=
      find?_skip (fun u mem => by simp [Timers.insposHandler0, due u (by simp [mem]), earlier u mem])
        fun u mem => by simp [Timers.insposHandler0, due u (by simp [mem]), later u mem]
    rw [if_pos now, sched.rep.listApply enough, if_pos rfl, oneList_apply, found]
    cases ys with
    | nil =>
      have rep := sched.rep.listAppend () free (some t)
      rw [update_oneList] at rep
      exact ⟨_, _, rfl, sched.insert off earlier later (by simpa using rep)
        (sched.rep.data_listAppend free)⟩
    | cons v ys =>
      have split : oneList (xs ++ v :: ys) () = xs ++ v :: ys := rfl
      have rep := sched.rep.listInsertBefore split free (some t)
      rw [update_oneList] at rep
      exact ⟨_, _, rfl, sched.insert off earlier later rep
        (sched.rep.data_listInsertBefore rfl free)⟩
  · have found : (xs ++ ys).reverse.find? (Timers.insposHandler { s with
        tmr := Function.update s.tmr t { th := some th, jfs := jfs } } jfs) = xs.getLast? := by
      rw [List.reverse_append, ← List.head?_reverse]
      exact find?_skip
        (fun u mem => by
          have mem := List.mem_reverse.mp mem
          simp [Timers.insposHandler, due u (by simp [mem]), later u mem])
        fun u mem => by
          have mem := List.mem_reverse.mp mem
          simp [Timers.insposHandler, due u (by simp [mem]), earlier u mem]
    rw [if_neg now, sched.rep.listApply enough, if_neg Bool.false_ne_true, oneList_apply, found]
    rcases List.eq_nil_or_concat xs with rfl | ⟨xs, v, rfl⟩
    · have rep := sched.rep.listPrepend () free (some t)
      rw [update_oneList] at rep
      exact ⟨_, _, rfl, sched.insert off earlier later rep (sched.rep.data_listPrepend free)⟩
    · rw [List.concat_eq_append] at sched off earlier ⊢
      have split : oneList (xs ++ [v] ++ ys) () = xs ++ v :: ys := by simp
      have rep := sched.rep.listInsertAfter split free (some t)
      rw [update_oneList] at rep
      rw [List.getLast?_concat]
      exact ⟨_, _, rfl, sched.insert off earlier later (by simpa using rep)
        (sched.rep.data_listInsertAfter split free)⟩

/-- `tmr_start` with a handler ends, and arms the timer anew. -/
theorem tmrStart (sched : Scheduled s l a) (now : Nat) (t : LeId) (delay : Nat) (th : α)
    {fuel : Nat} (enough : l.length ≤ fuel) :
    ∃ s' l', s.tmrStart fuel now t delay (some th) = some s' ∧
      Scheduled s' l' (a.arm t ((delay + now) % 2 ^ 64) th) := by
  have idle : ((s.tmrStop t).tmr t).th = none := by simp [Timers.tmrStop]
  have shorter : (l.erase t).length ≤ fuel := (List.length_erase_le).trans enough
  obtain ⟨s', l', done, sched'⟩ := (sched.stop t).tmrInsert idle delay _ th shorter
  refine ⟨s', l', done, ?_⟩
  have again : (a.disarm t).arm t ((delay + now) % 2 ^ 64) th =
      a.arm t ((delay + now) % 2 ^ 64) th := by
    simp [Agenda.State.disarm, Agenda.State.arm, Function.update_idem]
  rwa [again] at sched'

/-- The timer at the head of the list. -/
theorem headTimer (sched : Scheduled s l a) : s.headTimer = l.head? := by
  unfold Timers.headTimer
  rw [sched.rep.head_eq]
  cases l with
  | nil => rfl
  | cons t l => exact sched.data_eq t (by simp)

/-- The first timer on the list goes off first. -/
theorem first {alarm : Alarm α} (sched : Scheduled s (t :: ys) a) (armed : a.alarm t = some alarm) :
    a.First t alarm := by
  refine ⟨armed, fun u b ne other => ?_⟩
  have running : (s.tmr u).th.isSome := by
    rw [Option.isSome_iff_ne_none]
    intro idle
    rw [sched.unarmed u idle] at other
    cases other
  have mem : u ∈ ys := by
    rcases List.mem_cons.mp ((sched.mem_iff u).mpr running) with same | mem
    · exact absurd same ne
    · exact mem
  exact (List.pairwise_cons.mp sched.sorted).1 u mem alarm b armed other

/-- The body of the loop of `tmr_poll`: it takes the timer that goes off first. -/
theorem tmrPop {th : Option α} (sched : Scheduled s l a) (pop : s.tmrPop jfs = some (t, th, s')) :
    ∃ task n l', th = some task ∧ a.First t ⟨(s.tmr t).jfs, n, task⟩ ∧ (s.tmr t).jfs ≤ jfs ∧
      Scheduled s' l' (a.disarm t) := by
  unfold Timers.tmrPop at pop
  rw [sched.headTimer] at pop
  cases l with
  | nil => cases pop
  | cons u l =>
    simp only [List.head?_cons] at pop
    split at pop
    next late => cases pop
    next due =>
      obtain ⟨rfl, rfl, rfl⟩ : u = t ∧ (s.tmr u).th = th ∧ _ = s' := by simpa using pop
      obtain ⟨task, n, has, -, armed⟩ := sched.mem_armed (t := u) (by simp)
      exact ⟨task, n, l, has, sched.first armed, Nat.le_of_not_lt due,
        sched.unlink_head⟩

/-- The loop of `tmr_poll` ends when no timer is due. -/
theorem tmrPop_none (sched : Scheduled s l a) (pop : s.tmrPop jfs = none) :
    ∀ t alarm, a.alarm t = some alarm → jfs < alarm.due := by
  intro t alarm armed
  unfold Timers.tmrPop at pop
  rw [sched.headTimer] at pop
  have running : (s.tmr t).th.isSome := by
    rw [Option.isSome_iff_ne_none]
    intro idle
    rw [sched.unarmed t idle] at armed
    cases armed
  have mem := (sched.mem_iff t).mpr running
  cases l with
  | nil => cases mem
  | cons u l =>
    simp only [List.head?_cons] at pop
    split at pop
    next late =>
      obtain ⟨_, _, -, -, armed'⟩ := sched.mem_armed mem
      obtain rfl := Option.some.inj (armed'.symm.trans armed)
      rcases List.mem_cons.mp mem with rfl | mem
      · exact late
      · exact Nat.lt_of_lt_of_le late ((List.pairwise_cons.mp sched.due_sorted).1 t mem)
    next => cases pop

/-- Zeroing a timer that is off the list does nothing to the others. -/
theorem tmrInit (sched : Scheduled s l a) (free : (s.links.le t).list = none) :
    Scheduled (s.tmrInit t) l (a.disarm t) := by
  have off : t ∉ l := sched.rep.fresh free ()
  have idle : (s.tmr t).th = none := by
    rw [sched.mem_iff] at off
    simpa using off
  have ne : ∀ u ∈ l, u ≠ t := fun u mem same => off (same ▸ mem)
  rw [sched.disarm_idle idle]
  refine ⟨sched.rep.clear free, ?_, ?_, ?_, ?_, sched.sorted, sched.polling_eq⟩
  · intro u mem
    simp [Timers.tmrInit, ne u mem, sched.data_eq u mem]
  · intro u
    by_cases self : u = t
    · subst self
      simpa [Timers.tmrInit] using off
    · simpa [Timers.tmrInit, self] using sched.mem_iff u
  · intro u th has
    by_cases self : u = t
    · subst self
      simp [Timers.tmrInit] at has
    · simp only [Timers.tmrInit, Function.update_of_ne self] at has ⊢
      exact sched.armed u th has
  · intro u idle'
    by_cases self : u = t
    · subst self
      exact sched.unarmed u idle
    · simp only [Timers.tmrInit, Function.update_of_ne self] at idle'
      exact sched.unarmed u idle'

/-- When a timer on the list is zeroed, the pointers lead from the head to that timer and no
further. -/
theorem tmrInit_front (sched : Scheduled s (xs ++ t :: ys) a) :
    Doubly.Seg (fun a => (s.links.le a).prev) (fun a => ((s.tmrInit t).links.le a).next) none
      (xs ++ [t]) none := by
  have split : oneList (xs ++ t :: ys) () = xs ++ t :: ys := rfl
  have once := sched.rep.once split
  have ne : ∀ x ∈ xs, x ≠ t := fun x mem same => once (by simp [← same, mem])
  obtain ⟨before, back, -⟩ := Doubly.seg_append.mp (sched.rep.linked ()).seg
  refine Doubly.seg_append.mpr ⟨before.frame (fun _ _ => rfl) fun x mem => ?_, back, ?_, trivial⟩
  · simp [Timers.tmrInit, ne x mem]
  · simp [Timers.tmrInit]

/-- When a timer on the list is zeroed, a loop from the head comes to the timers before it and then to
the zeroed one, and a loop from the tail to those behind it and then to the zeroed one, whose `data`
is null. Neither goes on to the other side. -/
theorem tmrInit_linked (sched : Scheduled s (xs ++ t :: ys) a) {ah : LeId → Bool} {fuel : Nat}
    (enough : (xs ++ t :: ys).length ≤ fuel) :
    (s.tmrInit t).links.listApply () true ah fuel = some ((xs ++ [t]).find? ah) ∧
      (s.tmrInit t).links.listApply () false ah fuel = some ((t :: ys).reverse.find? ah) ∧
      ((s.tmrInit t).links.le t).data = none := by
  have split : oneList (xs ++ t :: ys) () = xs ++ t :: ys := rfl
  have once := sched.rep.once split
  have ne : ∀ y ∈ ys, y ≠ t := fun y mem same => once (by simp [← same, mem])
  obtain ⟨-, -, on, behind⟩ := Doubly.seg_append.mp (sched.rep.linked ()).seg
  simp only [List.length_append, List.length_cons] at enough
  refine ⟨?_, ?_, by simp [Timers.tmrInit]⟩
  · have walk : Links.applyLoop ah (fun a => ((s.tmrInit t).links.le a).next) fuel (xs ++ [t]).head? =
        some ((xs ++ [t]).find? ah) := Links.applyLoop_seg sched.tmrInit_front (by simp; omega)
    have head := sched.rep.head_eq ()
    rw [Links.listApply, if_pos rfl, ← walk]
    simp [Timers.tmrInit, head]
  · have seg : Doubly.Seg (fun a => ((s.tmrInit t).links.le a).prev) (fun a => (s.links.le a).next)
        none (t :: ys) none := by
      refine ⟨by simp [Timers.tmrInit], on, behind.frame (fun y mem => ?_) fun _ _ => rfl⟩
      simp [Timers.tmrInit, ne y mem]
    have walk : Links.applyLoop ah (fun a => ((s.tmrInit t).links.le a).prev) fuel
        (t :: ys).reverse.head? = some ((t :: ys).reverse.find? ah) :=
      Links.applyLoop_seg seg.reverse (by simp; omega)
    have tail := sched.rep.tail_eq ()
    rw [Links.listApply, if_neg Bool.false_ne_true, ← walk]
    simp [Timers.tmrInit, tail, List.getLast?_cons]

section Restarted

variable {y : LeId} {zs : List LeId} {fuel : Nat}

/-- When the zeroed timer is to be due at `jfs`, the loop from the tail passes the timers that are due
later and stops at the one before them. -/
theorem tmrInit_stops (sched : Scheduled s (xs ++ t :: (ys ++ y :: zs)) a)
    (enough : (xs ++ t :: (ys ++ y :: zs)).length ≤ fuel) (due : (s.tmr y).jfs ≤ jfs)
    (later : ∀ z ∈ zs, jfs < (s.tmr z).jfs) :
    (s.tmrInit t).links.listApply () false (Timers.insposHandler
      { s.tmrInit t with
        tmr := Function.update (s.tmrInit t).tmr t { th := some th, jfs := jfs } } jfs) fuel =
      some (some y) := by
  generalize isAh : Timers.insposHandler _ jfs = ah
  have nodup : (xs ++ t :: (ys ++ y :: zs)).Nodup := (sched.rep.linked ()).nodup
  have handler : ∀ x ∈ y :: zs, ah x = decide ((s.tmr x).jfs ≤ jfs) := by
    intro x mem
    have ne : x ≠ t := by grind
    have data : (s.links.le x).data = some x := sched.data_eq x (by grind)
    simp [← isAh, Timers.insposHandler, Timers.dueOf, Timers.tmrInit, ne, data]
  have passes : zs.reverse.find? ah = none := List.find?_eq_none.mpr fun z mem => by
    have mem := List.mem_reverse.mp mem
    rw [handler z (List.mem_cons_of_mem _ mem), decide_eq_true_eq]
    exact Nat.not_le.mpr (later z mem)
  have accepts : ah y = true := by
    rw [handler y List.mem_cons_self]
    exact decide_eq_true due
  rw [(sched.tmrInit_linked enough).2.1]
  simp [passes, accepts]

/-- When the zeroed timer is started again, a loop from the head comes to the timers before it, to
the timer itself and from there to those that are due later than it is now. The timers in between
are lost. -/
theorem tmrInit_restarted {now delay : Nat} (sched : Scheduled s (xs ++ t :: (ys ++ y :: zs)) a)
    (enough : (xs ++ t :: (ys ++ y :: zs)).length ≤ fuel) (delayed : delay ≠ 0)
    (due : (s.tmr y).jfs ≤ (delay + now) % 2 ^ 64)
    (later : ∀ z ∈ zs, (delay + now) % 2 ^ 64 < (s.tmr z).jfs) :
    ∃ s', (s.tmrInit t).tmrStart fuel now t delay (some th) = some s' ∧
      ∀ ah fuel', (xs ++ t :: zs).length ≤ fuel' →
        s'.links.listApply () true ah fuel' = some ((xs ++ t :: zs).find? ah) := by
  have linked := sched.rep.linked ()
  have split : oneList (xs ++ t :: (ys ++ y :: zs)) () = (xs ++ t :: ys) ++ y :: zs := by simp
  have aside : oneList (xs ++ t :: (ys ++ y :: zs)) () = xs ++ t :: ((ys ++ [y]) ++ zs) := by simp
  have nodup : (xs ++ t :: ((ys ++ [y]) ++ zs)).Nodup := aside ▸ linked.nodup
  have ne : y ≠ t := by grind
  have idle : ((s.tmrInit t).tmr t).th = none := by simp [Timers.tmrInit]
  have free : ((s.tmrInit t).links.le t).list = none := by simp [Timers.tmrInit]
  have after : (s.links.le y).next = zs.head? := (sched.rep.at_split split).2
  rw [Timers.tmrStart, Timers.tmrStop_idle idle,
    Timers.tmrInsert_behind delayed (sched.tmrInit_stops enough due later)]
  refine ⟨_, rfl, fun ah fuel' enough => ?_⟩
  have skips : (((s.tmrInit t).links.listInsertAfter () y t (some t)).le t).next =
      zs.head?.or none := by
    rw [Links.next_listInsertAfter free, if_neg ne.symm, if_pos rfl]
    simpa [Timers.tmrInit, ne] using after
  have same : ∀ x ∈ xs ++ zs, (((s.tmrInit t).links.listInsertAfter () y t (some t)).le x).next =
      (s.links.le x).next := by
    intro x mem
    have notT : x ≠ t := by grind
    have notY : x ≠ y := by grind
    rw [Links.next_listInsertAfter free, if_neg notY, if_neg notT]
    simp [Timers.tmrInit, notT]
  have seg : ∃ prev, Doubly.Seg prev
      (fun x => (((s.tmrInit t).links.listInsertAfter () y t (some t)).le x).next) none
      (xs ++ t :: zs) none := (aside ▸ linked.seg).bypass nodup skips same
  obtain ⟨prev, seg⟩ := seg
  have head := sched.rep.head_eq ()
  rw [Links.listApply, if_pos rfl, Links.head_listInsertAfter, ← Links.applyLoop_seg seg enough]
  simp [Timers.tmrInit, head]

end Restarted

end Scheduled

/-! ## Runs of the timers -/

/-- The timers and the agenda that they keep. -/
def Keeps (s : Timers α) (a : Agenda.State LeId α) : Prop := ∃ l, Scheduled s l a

theorem Keeps.step {s s' : Timers α} {a : Agenda.State LeId α} {e : TimerEvent α} (keeps : Keeps s a)
    (step : TimerStep s e s') : ∃ b, Agenda.Step a e.agenda b ∧ Keeps s' b := by
  obtain ⟨l, sched⟩ := keeps
  cases step with
  | init free => exact ⟨_, .disarm, _, sched.tmrInit free⟩
  | @start _ fuel now delay t th run =>
    obtain ⟨s'', l', enough, sched'⟩ :=
      sched.tmrStart now t delay th (Nat.le_max_right fuel l.length)
    rw [Timers.tmrStart_mono run (Nat.le_max_left ..)] at enough
    obtain rfl := Option.some.inj enough
    exact ⟨_, .arm, l', sched'⟩
  | cancel run =>
    obtain rfl := Option.some.inj run
    exact ⟨_, .disarm, _, sched.stop _⟩
  | poll idle =>
    exact ⟨_, .poll (sched.polling_eq ▸ idle), l, { sched with polling_eq := rfl }⟩
  | @pop _ jfs t th polling pop =>
    obtain ⟨task, n, l', rfl, first, due, sched'⟩ := sched.tmrPop pop
    exact ⟨_, .fire (sched.polling_eq ▸ polling) first due, l', sched'⟩
  | done polling pop =>
    exact ⟨_, .idle (sched.polling_eq ▸ polling) (sched.tmrPop_none pop), l,
      { sched with polling_eq := rfl }⟩

theorem timers_simulates : Lts.Simulates (timers α) (Agenda.agenda LeId α) TimerEvent.agenda Keeps where
  init := by
    rintro s rfl
    refine ⟨{}, rfl, [], represents_zeroed, ?_, ?_, ?_, ?_, List.Pairwise.nil, rfl⟩
    · simp
    · simp
    · simp
    · simp
  step := fun _ _ _ _ keeps step => keeps.step step

end Autodialer
