import Autodialer.Sessions

/-!
# Pressed keys and configured actions

A key travels as the text `key_press` of the table `actions`, which `parseInt` makes a
number of, and as the event code of a telephone event, which `rtp_recv_handler` looks up
among these numbers. The two agree on the digits. `parseInt` makes 0 of `*` and `#`, whose
event codes are 10 and 11.

* `packets_choose`: what the packets of a call make of its action is what the event codes
  find among the numbers.
* `packets_selectKey`: they choose the action configured for the key exactly if the first
  event that has an action or finds one is not one on which the two differ.
-/

namespace Autodialer

open Fallible

/-- The rows of `actions` in the order of the table, each with its action and the text of
`key_press`. -/
abbrev KeyTable := List (ActionId × List Char)

/-- The key is one of those of a telephone. -/
def KeyText (text : List Char) : Prop := ∃ c ∈ "0123456789*#".toList, text = [c]

/-- `action->action_key` -/
def keyNumber (text : List Char) : Nat := plU32 text % 2 ^ 8

/-- `telev_code2digit`; `none` is -1. -/
def televCode2digit (code : Nat) : Option Char := "0123456789*#ABCD".toList[code]?

/-! ## Telephone events -/

/-- What a packet does to the state of `telev`, and the event that it completes. -/
def televStep (telev : Option Telev) (mb : List UInt8) : Option Telev × Option Nat :=
  if mb.length < rtpHeaderSize then (telev, none)
  else if mb.getD 1 0 &&& 0x7f = 101 then
    match televRecv telev (mb.drop rtpHeaderSize) with
    | none => (telev, none)
    | some (telev, event, fin) => (some telev, if fin then some event else none)
  else (telev, none)

/-- The completed events that `telev_recv` accepts, in order. -/
def completedEvents : Option Telev → List (List UInt8) → List Nat
  | _, [] => []
  | telev, mb :: rest =>
    (televStep telev mb).2.toList ++ completedEvents (televStep telev mb).1 rest

/-! ## The two ways to find an action -/

/-- The row whose key is the digit of the event. -/
def rowOfDigit (table : KeyTable) (event : Nat) : Option (ActionId × List Char) :=
  table.find? fun row => decide (some row.2 = (televCode2digit event).map fun c => [c])

/-- The row whose number is the event. -/
def rowOfNumber (table : KeyTable) (event : Nat) : Option (ActionId × List Char) :=
  table.find? fun row => decide (keyNumber row.2 = event)

/-- The first row that an event finds. -/
def choice (find : Nat → Option (ActionId × List Char)) (events : List Nat) : Option ActionId :=
  (events.findSome? find).map Prod.fst

/-- There is a row for the event, by its digit or by its number. -/
def Answerable (table : KeyTable) (event : Nat) : Bool :=
  (rowOfDigit table event).isSome || (rowOfNumber table event).isSome

/-- A key without a number of its own is pressed, or the key 0, and the first row with the
number 0 is for another key. -/
def Clashes (table : KeyTable) (event : Nat) : Prop :=
  (event = 10 ∧ ∃ row ∈ table, row.2 = ['*']) ∨ (event = 11 ∧ ∃ row ∈ table, row.2 = ['#']) ∨
    (event = 0 ∧ ∃ row ∈ table.find? (fun row => decide (row.2 ∈ [['0'], ['*'], ['#']])),
      row.2 ≠ ['0'])

variable {table : KeyTable} {event : Nat}

theorem find?_eq_iff {α : Type} {p q : α → Bool} (implies : ∀ a, p a = true → q a = true)
    (l : List α) : l.find? p = l.find? q ↔ ∀ a ∈ l.find? q, p a = true := by
  induction l with
  | nil => simp
  | cons a l ih =>
    rw [List.find?_cons, List.find?_cons]
    cases isQ : q a with
    | false =>
      have notP : p a = false := by
        rw [Bool.eq_false_iff]
        intro isP
        rw [implies a isP] at isQ
        cases isQ
      simpa [notP] using ih
    | true =>
      cases isP : p a with
      | true => simp [isP]
      | false =>
        refine iff_of_false (fun same => ?_) (by simp [isP])
        have found := List.find?_some same
        rw [isP] at found
        cases found

theorem find?_congr_mem {α : Type} {p q : α → Bool} {l : List α} (same : ∀ a ∈ l, p a = q a) :
    l.find? p = l.find? q := by
  induction l with
  | nil => rfl
  | cons a l ih =>
    rw [List.find?_cons, List.find?_cons, same a List.mem_cons_self,
      ih fun a mem => same a (List.mem_cons_of_mem _ mem)]

/-- What holds of the twelve keys, one after the other, holds of every key. -/
theorem KeyText.check {P : List Char → Prop} [DecidablePred P] {text : List Char}
    (isKey : KeyText text) (all : ("0123456789*#".toList.all fun c => decide (P [c])) = true) :
    P text := by
  obtain ⟨c, mem, rfl⟩ := isKey
  exact of_decide_eq_true (List.all_eq_true.mp all c mem)

theorem keyNumber_lt {text : List Char} (isKey : KeyText text) : keyNumber text < 10 :=
  isKey.check (P := fun text => keyNumber text < 10) (by decide)

theorem keyNumber_zero {text : List Char} (isKey : KeyText text) :
    keyNumber text = 0 ↔ text ∈ [['0'], ['*'], ['#']] :=
  isKey.check (P := fun text => keyNumber text = 0 ↔ text ∈ [['0'], ['*'], ['#']]) (by decide)

/-- Off the keys 0, `*` and `#` the digit and the number of an event are the same. -/
theorem digit_iff_number {text : List Char} (isKey : KeyText text)
    (plain : event ≠ 0 ∧ event ≠ 10 ∧ event ≠ 11) :
    some text = (televCode2digit event).map (fun c => [c]) ↔ keyNumber text = event := by
  rcases Nat.lt_or_ge event 16 with small | large
  · have agree : ∀ event < 16, event ≠ 0 ∧ event ≠ 10 ∧ event ≠ 11 →
        (some text = (televCode2digit event).map (fun c => [c]) ↔ keyNumber text = event) :=
      isKey.check (P := fun text => ∀ event < 16, event ≠ 0 ∧ event ≠ 10 ∧ event ≠ 11 →
        (some text = (televCode2digit event).map (fun c => [c]) ↔ keyNumber text = event))
        (by decide)
    exact agree event small plain
  · have none' : televCode2digit event = none := List.getElem?_eq_none large
    have bound := keyNumber_lt isKey
    rw [none']
    refine iff_of_false (fun same => by cases same) fun same => ?_
    rw [same] at bound
    exact absurd bound (Nat.not_lt.mpr (Nat.le_trans (by decide) large))

/-- A key with no number of its own is found by its digit only. -/
theorem rowOfNumber_ten (keys : ∀ row ∈ table, KeyText row.2) (large : 10 ≤ event) :
    rowOfNumber table event = none := by
  refine List.find?_eq_none.mpr fun row mem => ?_
  have bound := keyNumber_lt (keys row mem)
  rw [decide_eq_true_iff]
  omega

theorem rowOfDigit_none {c : Char} (isDigit : televCode2digit event = some c) :
    rowOfDigit table event = none ↔ ¬ ∃ row ∈ table, row.2 = [c] := by
  rw [rowOfDigit, isDigit, List.find?_eq_none]
  simp only [Option.map_some, decide_eq_true_eq, Option.some.injEq, not_exists, not_and]

/-- The two ways to find an action agree exactly if the event does not clash. -/
theorem rowOfDigit_eq (keys : ∀ row ∈ table, KeyText row.2) :
    rowOfDigit table event = rowOfNumber table event ↔ ¬ Clashes table event := by
  rcases eq_or_ne event 0 with rfl | notZero
  · have number : rowOfNumber table 0 =
        table.find? fun row => decide (row.2 ∈ [['0'], ['*'], ['#']]) :=
      find?_congr_mem fun row mem => decide_eq_decide.mpr (keyNumber_zero (keys row mem))
    have digit : rowOfDigit table 0 = table.find? fun row => decide (row.2 = ['0']) :=
      find?_congr_mem fun row mem => decide_eq_decide.mpr Option.some_inj
    rw [number, digit, find?_eq_iff fun row isZero => ?_]
    · simp [Clashes]
    · rw [decide_eq_true_iff] at isZero ⊢
      rw [isZero]
      exact List.mem_cons_self
  rcases eq_or_ne event 10 with rfl | notTen
  · rw [rowOfNumber_ten keys (Nat.le_refl 10), rowOfDigit_none (c := '*') rfl]
    simp [Clashes]
  rcases eq_or_ne event 11 with rfl | notEleven
  · rw [rowOfNumber_ten keys (by decide), rowOfDigit_none (c := '#') rfl]
    simp [Clashes]
  · refine iff_of_true (find?_congr_mem fun row mem => decide_eq_decide.mpr ?_) ?_
    · exact digit_iff_number (keys row mem) ⟨notZero, notTen, notEleven⟩
    · simp [Clashes, notZero, notTen, notEleven]

theorem not_answerable (unanswerable : Answerable table event = false) :
    rowOfDigit table event = none ∧ rowOfNumber table event = none := by
  simpa [Answerable] using unanswerable

/-! ## The packets of a call -/

variable {s s' t : Sys} {rs : SessionId} {c : CallId} {call : Call} {mb : List UInt8}

/-- The session `rs` listens for the keys of the call `c`, whose campaign has the actions of the
table. -/
structure Accepts (s : Sys) (rs : SessionId) (c : CallId) (table : KeyTable) : Prop where
  listens : (s.media.rtp rs).televRecv = true
  arg : (s.media.rtp rs).arg = some c
  campaign : ∃ call d dest camp, s.media.calls.get c = some call ∧ call.arg = some d ∧
    s.book.dests.get d = some dest ∧ s.book.camps.get dest.cp = some camp ∧
    camp.actions = table.map Prod.fst
  rows : ∀ row ∈ table, ∃ action, s.actions.get row.1 = some action ∧
    action.actionKey = keyNumber row.2
  /-- Each row has an action of its own. -/
  nodup : (table.map Prod.fst).Nodup

theorem Accepts.congr (accepts : Accepts s rs c table) (book : s'.book = s.book)
    (actions : s'.actions = s.actions)
    (session : (s'.media.rtp rs).televRecv = (s.media.rtp rs).televRecv ∧
      (s'.media.rtp rs).arg = (s.media.rtp rs).arg)
    (same : ∀ call, s.media.calls.get c = some call → ∃ call', s'.media.calls.get c = some call' ∧
      call'.arg = call.arg) : Accepts s' rs c table := by
  obtain ⟨listens, arg, ⟨call, d, dest, camp, live, isArg, liveDest, liveCamp, isTable⟩, rows,
    nodup⟩ := accepts
  obtain ⟨call', live', arg'⟩ := same call live
  exact ⟨session.1.trans listens, session.2.trans arg,
    ⟨call', d, dest, camp, live', arg'.trans isArg, book ▸ liveDest, book ▸ liveCamp, isTable⟩,
    actions ▸ rows, nodup⟩

/-- `find_campaign_action` finds the first row with the number. -/
theorem findAction_row {actions : Heap Action} (event : Nat)
    (rows : ∀ row ∈ table, ∃ action, actions.get row.1 = some action ∧
      action.actionKey = keyNumber row.2) :
    ∃ r, findAction actions event (table.map Prod.fst) = .ok r ∧
      r.map Prod.fst = (rowOfNumber table event).map Prod.fst := by
  induction table with
  | nil => exact ⟨none, rfl, rfl⟩
  | cons row rest ih =>
    obtain ⟨action, live, isKey⟩ := rows row List.mem_cons_self
    obtain ⟨r, found, same⟩ := ih fun row mem => rows row (List.mem_cons_of_mem _ mem)
    rw [List.map_cons, findAction, load, live, Fallible.get?_some, Fallible.ok_bind, isKey,
      rowOfNumber, List.find?_cons]
    split
    next here => exact ⟨some (row.1, action), rfl, by simp [here]⟩
    next other => exact ⟨r, found, by simpa [other, rowOfNumber] using same⟩

theorem Accepts.findCampaignAction (accepts : Accepts s rs c table)
    (live : s.media.calls.get c = some call) (event : Nat) :
    ∃ r, findCampaignAction s call.arg event = .ok r ∧
      r.map Prod.fst = (rowOfNumber table event).map Prod.fst := by
  obtain ⟨_, d, dest, camp, live', isArg, liveDest, liveCamp, isTable⟩ := accepts.campaign
  cases live.symm.trans live'
  obtain ⟨r, found, same⟩ := findAction_row event accepts.rows
  refine ⟨r, ?_, same⟩
  simp [Autodialer.findCampaignAction, isArg, Sys.loadDest, Sys.loadCamp, load, liveDest, liveCamp,
    isTable, found]

theorem rtpForward_accepts (accepts : Accepts s rs c table) :
    Accepts (rtpForward s rs mb) rs c table := by
  rcases rtpForward_cases s rs mb with ⟨-, eq⟩ | ⟨_, -, eq⟩ <;> rw [eq]
  · exact accepts
  · exact accepts.congr rfl rfl ⟨rfl, rfl⟩ fun call live => ⟨call, live, rfl⟩

/-- A packet after the key was taken: the call stays as it is. -/
theorem rtpRecvHandler_settled (accepts : Accepts s rs c table)
    (live : s.media.calls.get c = some call) (received : call.eventReceived = true)
    (mb : List UInt8) : ∃ s', rtpRecvHandler s rs mb = .ok s' ∧ Accepts s' rs c table ∧
      s'.media.calls.get c = some call := by
  unfold rtpRecvHandler
  split
  · exact ⟨s, rfl, accepts, live⟩
  · simp only [accepts.listens, accepts.arg, nonNull_some, Fallible.ok_bind, Sys.loadCall, load,
      live, Fallible.get?_some, received, if_true, Bool.not_true, Bool.false_and,
      Bool.false_eq_true, if_false]
    refine ⟨_, rfl, rtpForward_accepts accepts, ?_⟩
    rcases rtpForward_cases s rs mb with ⟨-, eq⟩ | ⟨_, -, eq⟩ <;> rw [eq]
    · exact live
    · exact live

/-- The call after an event that found this action. -/
def Takes (call call' : Call) : Option ActionId → Prop
  | none => call' = call
  | some a => call'.eventReceived = true ∧ call'.action = some a

/-- The state of `telev` after a packet. -/
def Sys.setTelev (s : Sys) (rs : SessionId) (telev : Telev) : Sys :=
  s.setSession rs fun r => { r with telev := some telev }

theorem setTelev_rtp (telev : Telev) :
    (s.setTelev rs telev).media.rtp rs = { s.media.rtp rs with telev := some telev } :=
  (rtp_setSession (m := s.media) (fun r => { r with telev := some telev }) rs).trans (if_pos rfl)

theorem setTelev_accepts (accepts : Accepts s rs c table) (telev : Telev) :
    Accepts (s.setTelev rs telev) rs c table := by
  refine accepts.congr rfl rfl ?_ fun call live => ⟨call, live, rfl⟩
  rw [setTelev_rtp]
  exact ⟨rfl, rfl⟩

/-- A completed event. -/
theorem rtpEvent_step (accepts : Accepts s rs c table) (live : s.media.calls.get c = some call)
    (event : Nat) :
    ∃ s' call', rtpEvent s c call event = .ok s' ∧ Accepts s' rs c table ∧
      s'.media.calls.get c = some call' ∧ s'.media.rtp = s.media.rtp ∧
      Takes call call' ((rowOfNumber table event).map Prod.fst) := by
  obtain ⟨r, found, same⟩ := accepts.findCampaignAction live event
  rw [rtpEvent, found, Fallible.ok_bind, ← same]
  cases r with
  | none => exact ⟨s, call, rfl, accepts, live, rfl, rfl⟩
  | some r =>
    have written : ∀ f : Call → Call, (s.setCall c f).media.calls.get c = some (f call) := by
      intro f
      simp [Sys.setCall, live]
    refine ⟨_, _, rfl, accepts.congr rfl rfl ⟨rfl, rfl⟩ fun call' live' => ?_, written _, rfl, rfl,
      rfl⟩
    cases live.symm.trans live'
    exact ⟨_, written _, rfl⟩

/-- A packet before the key was taken. -/
theorem rtpRecvHandler_step (accepts : Accepts s rs c table)
    (live : s.media.calls.get c = some call) (waiting : call.eventReceived = false)
    (mb : List UInt8) :
    ∃ s' call', rtpRecvHandler s rs mb = .ok s' ∧ Accepts s' rs c table ∧
      s'.media.calls.get c = some call' ∧
      (s'.media.rtp rs).telev = (televStep (s.media.rtp rs).telev mb).1 ∧
      Takes call call' (((televStep (s.media.rtp rs).telev mb).2.bind (rowOfNumber table)).map
        Prod.fst) := by
  have forward : ∀ u : Sys, (rtpForward u rs mb).media.calls = u.media.calls ∧
      (rtpForward u rs mb).media.rtp = u.media.rtp := by
    intro u
    rcases rtpForward_cases u rs mb with ⟨-, eq⟩ | ⟨_, -, eq⟩ <;> rw [eq] <;> exact ⟨rfl, rfl⟩
  rw [rtpRecvHandler, televStep]
  split
  · exact ⟨s, call, rfl, accepts, live, rfl, rfl⟩
  simp only [accepts.listens, accepts.arg, nonNull_some, Fallible.ok_bind, Sys.loadCall, load,
    live, Fallible.get?_some, waiting, if_true, Bool.not_false, Bool.true_and, decide_eq_true_eq]
  split
  next isEvent =>
    cases accepted : televRecv (s.media.rtp rs).telev (mb.drop rtpHeaderSize) with
    | none => exact ⟨s, call, rfl, accepts, live, rfl, rfl⟩
    | some result =>
      obtain ⟨telev, event, fin⟩ := result
      have accepts' := setTelev_accepts accepts telev
      cases fin with
      | true =>
        obtain ⟨s', call', run, done, live', rtp, takes⟩ := rtpEvent_step accepts' live event
        refine ⟨s', call', run, done, live', ?_, takes⟩
        rw [rtp, setTelev_rtp]
      | false =>
        refine ⟨_, call, rfl, rtpForward_accepts accepts', ?_, ?_, rfl⟩
        · rw [(forward _).1]
          exact live
        · rw [(forward _).2]
          exact congrArg RtpSession.telev (setTelev_rtp telev)
  next notEvent =>
    refine ⟨_, call, rfl, rtpForward_accepts accepts, ?_, ?_, rfl⟩
    · rw [(forward s).1, live]
    · rw [(forward s).2]

/-- The packets arrive one after the other. -/
def recvPackets (s : Sys) (rs : SessionId) (packets : List (List UInt8)) : Exec Sys :=
  packets.foldlM (fun s mb => rtpRecvHandler s rs mb) s

/-- What is stored in the call: an action and `event_received`, or neither. -/
def Stored (s : Sys) (c : CallId) (action : Option ActionId) : Prop :=
  ∃ call, s.media.calls.get c = some call ∧ call.eventReceived = action.isSome ∧ call.action = action

theorem recvPackets_settled (packets : List (List UInt8)) {a : ActionId}
    (accepts : Accepts s rs c table) (stored : Stored s c (some a)) :
    ∃ t, recvPackets s rs packets = .ok t ∧ Stored t c (some a) := by
  induction packets generalizing s with
  | nil => exact ⟨s, rfl, stored⟩
  | cons mb rest ih =>
    obtain ⟨call, live, received, isAction⟩ := stored
    obtain ⟨s', run, accepts', live'⟩ := rtpRecvHandler_settled accepts live received mb
    obtain ⟨t, run', stored'⟩ := ih accepts' ⟨call, live', received, isAction⟩
    exact ⟨t, by rw [recvPackets, List.foldlM_cons, run, Fallible.ok_bind]; exact run', stored'⟩

/-- What the packets make of the action is what the event codes find among the numbers. -/
theorem packets_choose (packets : List (List UInt8)) (accepts : Accepts s rs c table)
    (waiting : Stored s c none) : ∃ t, recvPackets s rs packets = .ok t ∧
      Stored t c (choice (rowOfNumber table) (completedEvents (s.media.rtp rs).telev packets)) := by
  induction packets generalizing s with
  | nil => exact ⟨s, rfl, waiting⟩
  | cons mb rest ih =>
    obtain ⟨call, live, received, noAction⟩ := waiting
    obtain ⟨s', call', run, accepts', live', telev, takes⟩ :=
      rtpRecvHandler_step accepts live received mb
    rw [recvPackets, List.foldlM_cons, run, Fallible.ok_bind, completedEvents]
    cases completed : (televStep (s.media.rtp rs).telev mb).2.bind (rowOfNumber table) with
    | none =>
      rw [completed] at takes
      obtain rfl : call' = call := takes
      obtain ⟨t, run', stored⟩ := ih accepts' ⟨call', live', received, noAction⟩
      refine ⟨t, run', ?_⟩
      rw [telev] at stored
      cases event : (televStep (s.media.rtp rs).telev mb).2 with
      | none => exact stored
      | some e =>
        rw [event] at completed
        simpa [choice, show rowOfNumber table e = none from completed] using stored
    | some row =>
      rw [completed] at takes
      obtain ⟨t, run', stored⟩ := recvPackets_settled rest accepts'
        ⟨call', live', takes.1, takes.2⟩
      refine ⟨t, run', ?_⟩
      obtain ⟨e, event, found⟩ := Option.bind_eq_some_iff.mp completed
      simpa [event, choice, found] using stored

/-! ## The configured action -/

/-- While the packets arrive, `call->action` is the action of the first completed event whose
digit is the key of a row, and `event_received` says whether there is one. Once it is there it
does not change. -/
structure SelectsKey (s : Sys) (rs : SessionId) (c : CallId) (table : KeyTable)
    (packets : List (List UInt8)) : Prop where
  chosen : ∀ early, early <+: packets → ∃ t, recvPackets s rs early = .ok t ∧
    Stored t c (choice (rowOfDigit table) (completedEvents (s.media.rtp rs).telev early))
  stays : ∀ early late t t' a, early ++ late <+: packets → recvPackets s rs early = .ok t →
    recvPackets s rs (early ++ late) = .ok t' → Stored t c (some a) → Stored t' c (some a)

/-- The first of the events that has an action, or finds one, is not one on which the digit and
the number differ. -/
def NoClash (table : KeyTable) (events : List Nat) : Prop :=
  ∀ event ∈ events.find? (Answerable table), ¬ Clashes table event

/-- On every part of the packets the two ways to choose agree exactly if the first event that
counts does not clash. -/
theorem choices_agree (keys : ∀ row ∈ table, KeyText row.2)
    (nodup : (table.map Prod.fst).Nodup) (telev : Option Telev) (packets : List (List UInt8)) :
    (∀ early, early <+: packets → choice (rowOfDigit table) (completedEvents telev early) =
      choice (rowOfNumber table) (completedEvents telev early)) ↔
      NoClash table (completedEvents telev packets) := by
  induction packets generalizing telev with
  | nil =>
    refine iff_of_true (fun early first => ?_) (fun _ mem => by cases mem)
    rw [List.prefix_nil.mp first]
    rfl
  | cons mb rest ih =>
    -- a part of the packets is empty or begins with the first one
    have shift : (∀ early, early <+: mb :: rest → choice (rowOfDigit table)
        (completedEvents telev early) = choice (rowOfNumber table) (completedEvents telev early)) ↔
        ∀ early, early <+: rest → choice (rowOfDigit table) (completedEvents telev (mb :: early)) =
          choice (rowOfNumber table) (completedEvents telev (mb :: early)) := by
      constructor
      · exact fun same early first => same (mb :: early) (List.cons_prefix_cons.mpr ⟨rfl, first⟩)
      · intro same early first
        cases early with
        | nil => rfl
        | cons mb' early =>
          obtain ⟨rfl, first'⟩ := List.cons_prefix_cons.mp first
          exact same early first'
    rw [shift]
    simp only [completedEvents]
    cases (televStep telev mb).2 with
    | none => exact ih (televStep telev mb).1
    | some event =>
      simp only [Option.toList_some, List.singleton_append]
      cases answerable : Answerable table event with
      | false =>
        obtain ⟨noDigit, noNumber⟩ := not_answerable answerable
        simpa [choice, noDigit, noNumber, NoClash, answerable] using ih (televStep telev mb).1
      | true =>
        -- an event that counts decides both choices on every part that reaches it
        have clash : NoClash table (event :: completedEvents (televStep telev mb).1 rest) ↔
            ¬ Clashes table event := by
          simp [NoClash, answerable]
        rw [clash, ← rowOfDigit_eq keys]
        constructor
        · intro same
          have here : (rowOfDigit table event).map Prod.fst =
              (rowOfNumber table event).map Prod.fst := by
            simpa [choice, completedEvents] using same [] (List.nil_prefix)
          cases digit : rowOfDigit table event with
          | none =>
            rw [digit, Option.map_none, eq_comm, Option.map_eq_none_iff] at here
            exact here.symm
          | some row =>
            rw [digit, Option.map_some, eq_comm, Option.map_eq_some_iff] at here
            obtain ⟨row', number, isId⟩ := here
            rw [number, List.inj_on_of_nodup_map nodup (List.mem_of_find?_eq_some number)
              (List.mem_of_find?_eq_some digit) isId]
        · intro same early _
          obtain ⟨row, digit⟩ : ∃ row, rowOfDigit table event = some row := by
            rw [Answerable, ← same, Bool.or_self] at answerable
            exact Option.isSome_iff_exists.mp answerable
          simp [choice, ← same, digit]

/-- A packet after the key was taken leaves the choice. -/
theorem recvPackets_stays {early late : List (List UInt8)} {t' : Sys} {a : ActionId}
    (accepts : Accepts s rs c table) (waiting : Stored s c none)
    (first : recvPackets s rs early = .ok t) (both : recvPackets s rs (early ++ late) = .ok t')
    (stored : Stored t c (some a)) : Stored t' c (some a) := by
  have events : ∀ telev, ∃ more, completedEvents telev (early ++ late) =
      completedEvents telev early ++ more := by
    clear first both
    induction early with
    | nil => exact fun telev => ⟨_, rfl⟩
    | cons mb early ih =>
      intro telev
      obtain ⟨more, eq⟩ := ih (televStep telev mb).1
      exact ⟨more, by rw [List.cons_append, completedEvents, completedEvents, eq, List.append_assoc]⟩
  have determined : ∀ {u : Sys} {o o' : Option ActionId}, Stored u c o → Stored u c o' → o = o' := by
    rintro u o o' ⟨call, live, -, isO⟩ ⟨call', live', -, isO'⟩
    cases live.symm.trans live'
    exact isO.symm.trans isO'
  obtain ⟨u, run, chosen⟩ := packets_choose early accepts waiting
  cases first.symm.trans run
  obtain ⟨u', run', chosen'⟩ := packets_choose (early ++ late) accepts waiting
  cases both.symm.trans run'
  obtain ⟨more, eq⟩ := events (s.media.rtp rs).telev
  have here := determined chosen stored
  obtain ⟨row, found, isRow⟩ := Option.map_eq_some_iff.mp here
  rw [eq, choice, List.findSome?_append, found] at chosen'
  rw [← isRow]
  exact chosen'

/-- For every table of actions and every sequence of packets on a call that accepts events: the
action configured for the pressed key is taken exactly if the first completed event that has an
action, or finds one, is not `*` or `#` with a row for it, or 0 where the first of the rows for
0, `*` and `#` is not that for 0. -/
theorem packets_selectKey {packets : List (List UInt8)} (accepts : Accepts s rs c table)
    (keys : ∀ row ∈ table, KeyText row.2) (waiting : Stored s c none) :
    SelectsKey s rs c table packets ↔
      NoClash table (completedEvents (s.media.rtp rs).telev packets) := by
  rw [← choices_agree keys accepts.nodup]
  constructor
  · intro selects early first
    obtain ⟨t, run, call, live, -, chosen⟩ := selects.chosen early first
    obtain ⟨t', run', call', live', -, chosen'⟩ := packets_choose early accepts waiting
    cases run.symm.trans run'
    cases live.symm.trans live'
    exact chosen.symm.trans chosen'
  · intro agree
    refine ⟨fun early first => ?_, fun early late t t' a _ first both stored =>
      recvPackets_stays accepts waiting first both stored⟩
    rw [agree early first]
    exact packets_choose early accepts waiting

/-- A call that was answered, in a campaign with an action for each of two keys. -/
def twoKeys (first second : List Char) : Sys where
  media := {
    calls := Heap.empty.alloc { rtpSess := some 0, arg := some 0, callStatus := .established }
    rtp := fun _ => { televRecv := true, telev := some {}, arg := some 0 } }
  book := {
    dests := Heap.empty.alloc { destId := 1, dest := some "100", cp := 0, call := some 0 }
    camps := Heap.empty.alloc { actions := [0, 1] } }
  actions := (Heap.empty.alloc { actionKey := keyNumber first, actionType := 1 }).alloc
    { actionKey := keyNumber second, actionType := 1 }

theorem twoKeys_accepts (first second : List Char) :
    Accepts (twoKeys first second) 0 0 [(0, first), (1, second)] where
  listens := rfl
  arg := rfl
  campaign := ⟨_, 0, _, _, rfl, rfl, rfl, rfl, rfl⟩
  rows := by
    intro row mem
    rcases List.mem_cons.mp mem with rfl | mem
    · exact ⟨_, rfl, rfl⟩
    · rw [List.mem_singleton.mp mem]
      exact ⟨_, rfl, rfl⟩
  nodup := by simp

theorem twoKeys_waiting (first second : List Char) : Stored (twoKeys first second) 0 none :=
  ⟨_, rfl, rfl, rfl⟩

/-- A completed telephone event. -/
def pressPacket (event : UInt8) : List UInt8 :=
  [0x80, 101] ++ List.replicate 10 0 ++ [event, 0x80, 0, 0]

/-- The key 1 is pressed, and the packet comes twice. -/
theorem packets_selectKey_one :
    SelectsKey (twoKeys ['1'] ['2']) 0 0 [(0, ['1']), (1, ['2'])] [pressPacket 1, pressPacket 1] ↔
      NoClash [(0, ['1']), (1, ['2'])]
        (completedEvents (some {}) [pressPacket 1, pressPacket 1]) :=
  packets_selectKey (twoKeys_accepts ['1'] ['2'])
    (fun row mem => by
      rcases List.mem_cons.mp mem with rfl | mem
      · exact ⟨'1', by decide, rfl⟩
      · exact ⟨'2', by decide, by rw [List.mem_singleton.mp mem]⟩)
    (twoKeys_waiting ['1'] ['2'])

/-- The key `*` has an action, and pressing it does nothing. -/
theorem star_unheard : ¬ ∀ s rs c table packets, Accepts s rs c table →
    (∀ row ∈ table, KeyText row.2) → Stored s c none → SelectsKey s rs c table packets := by
  intro always
  have accepts := twoKeys_accepts ['*'] ['0']
  have waiting := twoKeys_waiting ['*'] ['0']
  have keys : ∀ row ∈ [((0 : ActionId), ['*']), (1, ['0'])], KeyText row.2 := by
    intro row mem
    rcases List.mem_cons.mp mem with rfl | mem
    · exact ⟨'*', by decide, rfl⟩
    · exact ⟨'0', by decide, by rw [List.mem_singleton.mp mem]⟩
  have selects := always _ 0 0 _ [pressPacket 10] accepts keys waiting
  obtain ⟨t, run, call, live, -, chosen⟩ := selects.chosen _ (List.prefix_refl _)
  obtain ⟨t', run', call', live', -, chosen'⟩ := packets_choose [pressPacket 10] accepts waiting
  cases run.symm.trans run'
  cases live.symm.trans live'
  exact absurd (chosen.symm.trans chosen') (by decide)

/-! ## The actions of the table -/

/-- `pull_groups` keeps the rows of `actions` in order, each with an action of its own that has
the number of its key. -/
theorem reloadActions_keys {cp : CampId} {camp : Campaign} {rows : List ActionRow}
    (live : s.book.camps.get cp = some camp) (run : reloadActions s cp camp (some rows) = .ok s') :
    ∃ camp', s'.book.camps.get cp = some camp' ∧ camp'.actions.Nodup ∧
      camp'.actions.map (fun a => (s'.actions.get a).map Action.actionKey) =
        rows.map fun row => some (row.keyPress % 2 ^ 8) := by
  have account := Fallible.foldlM_rule (I := fun rest (t : Sys) => ∃ camp',
      t.book.camps.get cp = some camp' ∧ camp'.actions.Nodup ∧
      (∀ a ∈ camp'.actions, a < t.actions.next) ∧
      camp'.actions.map (fun a => (t.actions.get a).map Action.actionKey) ++
        rest.map (fun row => some (row.keyPress % 2 ^ 8)) =
        rows.map fun row => some (row.keyPress % 2 ^ 8))
    (fun row rest t t' ⟨camp', live', nodup, old, keys⟩ run => by
      obtain ⟨action, isKey, -, rfl⟩ := loadAction_cases run
      have fresh : t.actions.next ∉ camp'.actions := fun mem => Nat.lt_irrefl _ (old _ mem)
      refine ⟨{ camp' with actions := camp'.actions ++ [t.actions.next] },
        by simp [Sys.setCamp, Book.setCamp, live'], ?_, fun a mem => ?_, ?_⟩
      · exact nodup.append (List.nodup_singleton _) (List.disjoint_singleton.mpr fresh)
      · rcases List.mem_append.mp mem with mem | mem
        · exact Nat.lt_succ_of_lt (old a mem)
        · rw [List.mem_singleton.mp mem]
          exact Nat.lt_succ_self _
      · have kept : camp'.actions.map (fun a => ((t.actions.alloc action).get a).map Action.actionKey) =
            camp'.actions.map fun a => (t.actions.get a).map Action.actionKey :=
          List.map_congr_left fun a mem => by
            rw [Heap.get_alloc, if_neg (Nat.ne_of_lt (old a mem))]
        rw [← keys]
        show (camp'.actions ++ [t.actions.next]).map
          (fun a => ((t.actions.alloc action).get a).map Action.actionKey) ++ _ = _
        rw [List.map_append, kept, List.map_singleton, Heap.get_alloc_next, Option.map_some, isKey,
          List.append_assoc, List.singleton_append, List.map_cons])
    ⟨{ camp with actions := [] }, by simp [Sys.setCamp, Book.setCamp, live], List.nodup_nil,
      (fun _ mem => by cases mem), rfl⟩ run
  obtain ⟨camp', live', nodup, -, keys⟩ := account
  exact ⟨camp', live', nodup, by simpa using keys⟩

end Autodialer
