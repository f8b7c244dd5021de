import Autodialer.Db

/-!
# What happens to the statements of the SQL queue

A statement that `db_exec` accepted is, at any later time, in one of three
places: handed to `mysql_query`, on the chain that the `db_sync` in progress
has detached, or on `sqllist`. `QueueInv` says that the two chains in memory
are well formed and apart; `Conserved` says that together they account for
every statement, in order.

* `queueNext_inv`: every step of either thread keeps `QueueInv`.
* `queue_conserved_iff`: the account is complete throughout a run exactly when
  no `db_sync` of the run gives up with statements in its chain.
-/

namespace Autodialer

open Chain

variable {α : Type}

/-- The chain that starts at a pointer of the queue. -/
abbrev Statements (db : Db α) : Option Nat → List (Nat × α) → Prop :=
  Linked SqlQuery.next SqlQuery.sql db.queries

/-- The detached chain `xs` and the list `ys` are well formed and disjoint. -/
structure QueueInv (s : Db α × SyncPc) (xs ys : List (Nat × α)) : Prop where
  detached : Statements s.1 s.2.le xs
  waiting : Statements s.1 s.1.head ys
  tail : s.1.tail = (addrs ys).getLast?
  distinct : (addrs xs ++ addrs ys).Nodup

/-- `enqueued` is what was handed over, then the statements `xs`, then `ys`. -/
def Balanced (db : Db α) (xs ys : List (Nat × α)) : Prop :=
  db.enqueued = db.handed ++ vals xs ++ vals ys

/-- Every statement ever enqueued has been handed to `mysql_query`, is still to
be run by the `db_sync` in progress, or is in `sqllist`; in this order, and
none twice. -/
def Conserved (s : Db α × SyncPc) : Prop :=
  ∃ xs ys, Statements s.1 s.2.le xs ∧ Statements s.1 s.1.head ys ∧ Balanced s.1 xs ys

/-- `db_sync` is about to return because the reconnect fails, with statements
in the chain it has detached. -/
def GivesUp (s : Db α × SyncPc) : QueueEvent α → Prop
  | .sync (.reconnect init connect) => (∃ q, s.2 = .reconnect (some q)) ∧ (init && connect) = false
  | _ => False

/-! ## `db_exec` -/

/-- Appending leaves every cell of the memory alone but the tail of the list. -/
theorem append_get {db : Db α} {sql : α} {a : Nat} (old : a ≠ db.queries.next)
    (inner : db.tail ≠ some a) : (db.append sql).queries.get a = db.queries.get a := by
  cases tail : db.tail with
  | none => simp [Db.append, tail, Heap.get_alloc, old]
  | some t =>
    have ne : a ≠ t := fun eq => inner (by rw [tail, eq])
    simp [Db.append, tail, Heap.get_modify, Heap.get_alloc, old, ne]

theorem append_head (db : Db α) (sql : α) :
    (db.append sql).head = db.head.orElse fun _ => some db.queries.next := by
  cases head : db.head <;> simp [Db.append, head]

/-- The list after an append: the old statements, then the new one. -/
theorem append_waiting {db : Db α} {ys : List (Nat × α)} (sql : α)
    (waiting : Statements db db.head ys) (tail : db.tail = (addrs ys).getLast?)
    (distinct : (addrs ys).Nodup) :
    Statements (db.append sql) (db.append sql).head (ys ++ [(db.queries.next, sql)]) := by
  rcases List.eq_nil_or_concat ys with rfl | ⟨zs, ⟨a, x⟩, eq⟩
  · have noHead : db.head = none := by
      cases head : db.head with
      | none => rfl
      | some p => rw [head] at waiting; cases waiting
    have noTail : db.tail = none := by simpa using tail
    rw [append_head, noHead]
    exact Linked.cons (n := SqlQuery.mk sql none) (by simp [Db.append, noTail]) Linked.nil
  · rw [List.concat_eq_append] at eq
    subst eq
    have isTail : db.tail = some a := by simpa using tail
    obtain ⟨n, live, value, -⟩ := waiting.last
    have old : ∀ b ∈ addrs zs, b ≠ db.queries.next := fun b mem =>
      let ⟨_, live⟩ := waiting.live b (by simp [mem])
      Heap.ne_next live
    have inner : ∀ b ∈ addrs zs, db.tail ≠ some b := by
      intro b mem eq
      rw [isTail] at eq
      cases eq
      rw [addrs_append] at distinct
      exact (List.nodup_append.mp distinct).2.2 a mem a (by simp) rfl
    have head : (db.append sql).head = db.head := by
      cases head : db.head with
      | none => rw [head] at waiting; exact absurd waiting.of_none (by simp)
      | some p => rw [append_head, head]; rfl
    rw [head, List.append_assoc]
    have newCell : (db.append sql).queries.get db.queries.next = some ⟨sql, none⟩ := by
      simp [Db.append, isTail, Heap.get_modify, (Heap.ne_next live).symm]
    refine waiting.append_cell (n := { n with next := some db.queries.next })
      (fun b mem => append_get (old b mem) (inner b mem)) ?_ value rfl newCell rfl
    simp [Db.append, isTail, Heap.get_alloc_of_live live]

theorem dbExec_inv {s : Db α × SyncPc} {xs ys : List (Nat × α)} (inv : QueueInv s xs ys) (sql : α) :
    QueueInv (dbExec s.1 sql, s.2) xs (ys ++ [(s.1.queries.next, sql)]) where
  detached := by
    refine inv.detached.frame fun a mem => append_get ?_ ?_
    · obtain ⟨_, live⟩ := inv.detached.live a mem
      exact Heap.ne_next live
    · intro isTail
      have inList : a ∈ addrs ys := List.mem_of_getLast? (inv.tail ▸ isTail)
      exact (List.nodup_append.mp inv.distinct).2.2 a mem a inList rfl
  waiting := append_waiting sql inv.waiting inv.tail (List.nodup_append.mp inv.distinct).2.1
  tail := by simp [dbExec, Db.append]
  distinct := by
    rw [addrs_append, ← List.append_assoc]
    refine List.nodup_append.mpr ⟨inv.distinct, by simp, ?_⟩
    intro a mem b isNew eq
    obtain rfl : b = s.1.queries.next := by simpa using isNew
    have live : ∃ n, s.1.queries.get a = some n := by
      rcases List.mem_append.mp mem with mem | mem
      · exact inv.detached.live a mem
      · exact inv.waiting.live a mem
    obtain ⟨_, live⟩ := live
    exact Heap.ne_next live eq

/-- `db` with the statements `ws` enqueued, one after the other. -/
def Db.execAll (db : Db α) (ws : List α) : Db α := ws.foldl dbExec db

theorem execAll_append (db : Db α) (ws ws' : List α) :
    db.execAll (ws ++ ws') = (db.execAll ws).execAll ws' := List.foldl_append ..

theorem execAll_enqueued (db : Db α) (ws : List α) :
    (db.execAll ws).enqueued = db.enqueued ++ ws := by
  induction ws generalizing db with
  | nil => exact (List.append_nil _).symm
  | cons sql ws ih =>
    show ((dbExec db sql).execAll ws).enqueued = _
    rw [ih, show (dbExec db sql).enqueued = db.enqueued ++ [sql] from rfl, List.append_assoc]
    rfl

/-- The new statements end up at the end of the list. -/
theorem execAll_inv {db : Db α} {pc : SyncPc} {xs ys : List (Nat × α)} (ws : List α)
    (inv : QueueInv (db, pc) xs ys) :
    ∃ zs, vals zs = ws ∧ QueueInv (db.execAll ws, pc) xs (ys ++ zs) := by
  induction ws generalizing db ys with
  | nil =>
    refine ⟨[], rfl, ?_⟩
    rw [List.append_nil]
    exact inv
  | cons sql ws ih =>
    obtain ⟨zs, isWs, rest⟩ := ih (dbExec_inv inv sql)
    refine ⟨(db.queries.next, sql) :: zs, by rw [vals_cons, isWs], ?_⟩
    rw [List.append_assoc, List.singleton_append] at rest
    exact rest

/-! ## `db_sync` -/

theorem detach_inv {db : Db α} {xs ys : List (Nat × α)} (inv : QueueInv (db, .idle) xs ys) :
    QueueInv ({ db with head := none, tail := none }, .ping db.head) ys [] where
  detached := inv.waiting
  waiting := Linked.nil
  tail := rfl
  distinct := by simpa using (List.nodup_append.mp inv.distinct).2.1

/-- Steps that leave the memory and the chain alone keep the invariant. -/
theorem QueueInv.congr {db db' : Db α} {pc pc' : SyncPc} {xs ys : List (Nat × α)}
    (inv : QueueInv (db, pc) xs ys) (queries : db'.queries = db.queries) (head : db'.head = db.head)
    (tail : db'.tail = db.tail) (le : pc'.le = pc.le) : QueueInv (db', pc') xs ys where
  detached := by simpa [Statements, queries, le] using inv.detached
  waiting := by simpa [Statements, queries, head] using inv.waiting
  tail := tail.trans inv.tail
  distinct := inv.distinct

/-- The chain is forgotten. -/
theorem QueueInv.forget {db : Db α} {pc : SyncPc} {xs ys : List (Nat × α)}
    (inv : QueueInv (db, pc) xs ys) : QueueInv (db, .idle) [] ys where
  detached := Linked.nil
  waiting := inv.waiting
  tail := inv.tail
  distinct := by simpa using (List.nodup_append.mp inv.distinct).2.1

theorem query_inv {db : Db α} {le : Nat} {query : SqlQuery α} {xs ys : List (Nat × α)}
    (inv : QueueInv (db, .query (some le)) xs ys) (live : db.queries.get le = some query) :
    ∃ rest, xs = (le, query.sql) :: rest ∧
      QueueInv ({ db with queries := db.queries.free le, handed := db.handed ++ [query.sql] },
        .query query.next) rest ys := by
  obtain ⟨n, rest, live', rfl, chain⟩ := inv.detached.of_some
  obtain rfl : n = query := Option.some.inj (live'.symm.trans live)
  have distinct := inv.distinct
  rw [addrs_cons, List.cons_append, List.nodup_cons] at distinct
  refine ⟨rest, rfl, ?_, ?_, inv.tail, distinct.2⟩
  · refine chain.frame fun a mem => Heap.get_free_ne ?_
    rintro rfl
    exact distinct.1 (List.mem_append_left _ mem)
  · refine inv.waiting.frame fun a mem => Heap.get_free_ne ?_
    rintro rfl
    exact distinct.1 (List.mem_append_right _ mem)

theorem dbReconnect_frame (db : Db α) (init connect : Bool) :
    ∃ con, dbReconnect db init connect = (init && connect, { db with con := con }) := by
  cases init <;> cases connect <;> exact ⟨_, rfl⟩

/-- What a step of `db_sync` does to the chain `xs` and the list `ys`. -/
inductive SyncResult (db : Db α) (pc : SyncPc) (e : SyncEvent) (xs ys : List (Nat × α))
    (db' : Db α) : List (Nat × α) → List (Nat × α) → Prop
  /-- The list becomes the chain, or nothing moves. -/
  | kept {xs' ys' : List (Nat × α)} : db'.handed = db.handed →
      vals xs' ++ vals ys' = vals xs ++ vals ys →
      SyncResult db pc e xs ys db' xs' ys'
  | handed {le : Nat} {sql : α} {rest : List (Nat × α)} : xs = (le, sql) :: rest →
      db'.handed = db.handed ++ [sql] → SyncResult db pc e xs ys db' rest ys
  /-- The reconnect has failed and the chain is lost. -/
  | lost {le : Option Nat} {init connect : Bool} : pc = .reconnect le →
      e = .reconnect init connect → (init && connect) = false → db'.handed = db.handed →
      SyncResult db pc e xs ys db' [] ys

theorem dbSync_cases {db db' : Db α} {pc pc' : SyncPc} {e : SyncEvent} {xs ys : List (Nat × α)}
    (inv : QueueInv (db, pc) xs ys) (step : dbSync db pc e = some (db', pc')) :
    db'.enqueued = db.enqueued ∧
      ∃ xs' ys', QueueInv (db', pc') xs' ys' ∧ SyncResult db pc e xs ys db' xs' ys' := by
  unfold dbSync at step
  split at step
  · -- the list becomes the chain; the old chain is the empty one
    cases step
    have nothing : xs = [] := inv.detached.of_none
    exact ⟨rfl, ys, [], detach_inv inv, .kept rfl (by simp [nothing])⟩
  · cases step
    exact ⟨rfl, xs, ys, inv.congr rfl rfl rfl rfl, .kept rfl rfl⟩
  · cases step
    exact ⟨rfl, xs, ys, inv.congr rfl rfl rfl rfl, .kept rfl rfl⟩
  · rename_i le init connect
    obtain ⟨con, result⟩ := dbReconnect_frame db init connect
    rw [result] at step
    cases ok : (init && connect) with
    | true =>
      rw [ok] at step
      cases step
      exact ⟨rfl, xs, ys, inv.congr rfl rfl rfl rfl, .kept rfl rfl⟩
    | false =>
      rw [ok] at step
      cases step
      exact ⟨rfl, [], ys, inv.forget.congr rfl rfl rfl rfl, .lost rfl rfl ok rfl⟩
  · rename_i le
    obtain ⟨query, live, eq⟩ := Option.map_eq_some_iff.mp step
    cases eq
    obtain ⟨rest, rfl, inv'⟩ := query_inv inv live
    exact ⟨rfl, rest, ys, inv', .handed rfl rfl⟩
  · cases step
    exact ⟨rfl, xs, ys, inv.congr rfl rfl rfl rfl, .kept rfl rfl⟩
  · cases step

/-- Every step keeps both chains well formed. It keeps the account complete
too, unless it gives up. -/
theorem queueNext_inv {s s' : Db α × SyncPc} {e : QueueEvent α} {xs ys : List (Nat × α)}
    (inv : QueueInv s xs ys) (step : queueNext s e = some s') :
    ∃ xs' ys', QueueInv s' xs' ys' ∧
      (¬ GivesUp s e → Balanced s.1 xs ys → Balanced s'.1 xs' ys') := by
  obtain ⟨db, pc⟩ := s
  obtain ⟨db', pc'⟩ := s'
  cases e with
  | exec sql =>
    cases step
    refine ⟨xs, _, dbExec_inv inv sql, fun _ balanced => ?_⟩
    simp only [Balanced] at balanced ⊢
    simp [dbExec, Db.append, balanced]
  | sync e =>
    obtain ⟨enqueued, xs', ys', inv', result⟩ := dbSync_cases inv step
    refine ⟨xs', ys', inv', fun keeps balanced => ?_⟩
    simp only [Balanced, enqueued, List.append_assoc] at balanced ⊢
    cases result with
    | kept handed moved => rw [balanced, handed, moved]
    | handed isFirst handed =>
      rw [balanced, handed, isFirst]
      simp
    | @lost le _ _ isPc isEvent failed handed =>
      -- not giving up means that the forgotten chain was empty
      subst isPc isEvent
      have nothing : xs = [] := by
        cases le with
        | none => exact inv.detached.of_none
        | some q => exact absurd ⟨⟨q, rfl⟩, failed⟩ keeps
      rw [balanced, handed, nothing]

theorem queueInit_inv {s : Db α × SyncPc} (init : QueueInit s) : QueueInv s [] [] := by
  obtain rfl := init
  exact ⟨Linked.nil, Linked.nil, rfl, List.nodup_nil⟩

/-- In every reachable state both chains are well formed. -/
theorem queue_inv {s : Db α × SyncPc} (reach : (queueSystem α).Reachable s) :
    ∃ xs ys, QueueInv s xs ys :=
  reach.invariant (I := fun s => ∃ xs ys, QueueInv s xs ys)
    (fun _ init => ⟨[], [], queueInit_inv init⟩)
    (fun _ _ _ ⟨_, _, inv⟩ step =>
      let ⟨xs', ys', inv', _⟩ := queueNext_inv inv step
      ⟨xs', ys', inv'⟩)

/-! ## The account of a run -/

theorem QueueInv.conserved {s : Db α × SyncPc} {xs ys : List (Nat × α)} (inv : QueueInv s xs ys)
    (balanced : Balanced s.1 xs ys) : Conserved s :=
  ⟨xs, ys, inv.detached, inv.waiting, balanced⟩

/-- A run in which no `db_sync` gives up ends with a complete account. -/
theorem conserved_of_keeps {s : Db α × SyncPc} {h : List ((Db α × SyncPc) × QueueEvent α)}
    (run : (queueSystem α).Execution h s) (keeps : ∀ x ∈ h, ¬ GivesUp x.1 x.2) : Conserved s := by
  have account := run.induct (C := fun s e => ¬ GivesUp s e)
    (I := fun _ s => ∃ xs ys, QueueInv s xs ys ∧ Balanced s.1 xs ys) keeps
    (fun s init => ⟨[], [], queueInit_inv init, by obtain rfl := init; rfl⟩)
    (fun _ _ _ _ _ ⟨_, _, inv, balanced⟩ step keeps =>
      let ⟨xs', ys', inv', keep⟩ := queueNext_inv inv step
      ⟨xs', ys', inv', keep keeps balanced⟩)
  obtain ⟨xs, ys, inv, balanced⟩ := account
  exact inv.conserved balanced

/-- The step that gives up loses the chain: no later account is complete. -/
theorem not_conserved_of_givesUp {s s' : Db α × SyncPc} {e : QueueEvent α}
    (step : queueNext s e = some s') (gives : GivesUp s e) (before : Conserved s) :
    ¬ Conserved s' := by
  obtain ⟨db, pc⟩ := s
  cases e with
  | exec sql => cases gives
  | sync e =>
    cases e with
    | reconnect init connect =>
      obtain ⟨⟨q, isChain⟩, failed⟩ := gives
      obtain rfl : pc = .reconnect (some q) := isChain
      obtain ⟨con, result⟩ := dbReconnect_frame db init connect
      simp only [queueNext, dbSync, result, failed, Option.some.injEq] at step
      subst step
      rintro ⟨xs', ys', chain', waiting', balanced'⟩
      obtain ⟨xs, ys, chain, waiting, balanced⟩ := before
      obtain ⟨_, rest, _, rfl, _⟩ := chain.of_some
      obtain rfl : xs' = [] := chain'.of_none
      obtain rfl : ys' = ys := waiting'.unique waiting
      simp only [Balanced] at balanced balanced'
      have lengths := congrArg List.length (balanced.symm.trans balanced')
      simp at lengths
      omega
    | _ => cases gives

/-- Throughout a run every statement is accounted for exactly when no `db_sync`
of the run gives up with statements in its chain. -/
theorem queue_conserved_iff {s : Db α × SyncPc} {h : List ((Db α × SyncPc) × QueueEvent α)}
    (run : (queueSystem α).Execution h s) :
    (∀ t, Lts.Visits h s t → Conserved t) ↔ ∀ x ∈ h, ¬ GivesUp x.1 x.2 := by
  constructor
  · intro always ⟨t, e⟩ mem gives
    obtain ⟨u, step, visit⟩ := run.visits_next mem
    exact not_conserved_of_givesUp step gives (always t (.inr ⟨e, mem⟩)) (always u visit)
  · intro keeps t visit
    obtain ⟨h₁, h₂, rfl, run₁⟩ := run.of_visits visit
    exact conserved_of_keeps run₁ fun x mem => keeps x (List.mem_append_left _ mem)

/-- One statement is enqueued and detached, the ping fails, and the reconnect
fails in `mysql_real_connect`. -/
def lostUpdate : List (QueueEvent String) :=
  [.exec "update calls set call_status=4", .sync .detach, .sync (.ping false),
    .sync (.reconnect true false)]

theorem queue_conserved_iff_lost : ∃ h s, (queueSystem String).Execution h s ∧
    ((∀ t, Lts.Visits h s t → Conserved t) ↔ ∀ x ∈ h, ¬ GivesUp x.1 x.2) := by
  obtain ⟨h, s, run, -⟩ := Lts.replay_exists QueueInit queueNext lostUpdate (fun _ _ => true) rfl
    (by decide)
  exact ⟨h, s, run, queue_conserved_iff run⟩

/-- A statement disappears: it is neither handed over nor anywhere in memory
that the program can still reach. -/
theorem queue_loses : ∃ h s, (queueSystem String).Execution h s ∧ ¬ Conserved s := by
  obtain ⟨h, s, run, lost⟩ := Lts.replay_exists QueueInit queueNext lostUpdate
    (fun _ s => s.2.le.isNone && s.1.head.isNone && s.1.handed.isEmpty &&
      !s.1.enqueued.isEmpty) rfl (by decide)
  refine ⟨h, s, run, ?_⟩
  simp only [Bool.and_eq_true, Option.isNone_iff_eq_none, List.isEmpty_iff] at lost
  obtain ⟨⟨⟨noChain, noList⟩, noneHanded⟩, enqueued⟩ := lost
  rintro ⟨xs, ys, chain, waiting, balanced⟩
  obtain rfl : xs = [] := (noChain ▸ chain).of_none
  obtain rfl : ys = [] := (noList ▸ waiting).of_none
  rw [Balanced, noneHanded] at balanced
  simp [balanced] at enqueued

end Autodialer
