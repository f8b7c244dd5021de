import Autodialer.Lib.Doubly
import Autodialer.Lib.Trace
import Autodialer.ListSort

/-!
# Linked lists in memory (`list.c`)

`Book`, `Call` and `Pull` take a `struct list` as the list of its elements. Here the functions of
`list.c` are translated with their pointers: every `struct le` has its four fields, every
`struct list` its two ends.
-/

namespace Autodialer

abbrev LeId := Nat

/-- `struct le`; `ι` are the addresses of the lists. -/
structure Le (ι : Type) where
  prev : Option LeId := none
  next : Option LeId := none
  list : Option ι := none
  data : Option Nat := none

/-- `struct list` -/
structure ListHead where
  head : Option LeId := none
  tail : Option LeId := none

/-- The list elements and the lists in memory, zeroed to begin with. -/
@[ext] structure Links (ι : Type) where
  le : LeId → Le ι := fun _ => {}
  list : ι → ListHead := fun _ => {}

namespace Links

variable {ι : Type}

def setLe (m : Links ι) (a : LeId) (f : Le ι → Le ι) : Links ι :=
  { m with le := Function.update m.le a (f (m.le a)) }

@[simp] theorem le_setLe (m : Links ι) (a x : LeId) (f : Le ι → Le ι) :
    (m.setLe a f).le x = if x = a then f (m.le a) else m.le x := Function.update_apply ..

@[simp] theorem list_setLe (m : Links ι) (a : LeId) (f : Le ι → Le ι) :
    (m.setLe a f).list = m.list := rfl

variable [DecidableEq ι]

def setList (m : Links ι) (list : ι) (f : ListHead → ListHead) : Links ι :=
  { m with list := Function.update m.list list (f (m.list list)) }

@[simp] theorem le_setList (m : Links ι) (l : ι) (f : ListHead → ListHead) :
    (m.setList l f).le = m.le := rfl

@[simp] theorem list_setList (m : Links ι) (l x : ι) (f : ListHead → ListHead) :
    (m.setList l f).list x = if x = l then f (m.list l) else m.list x := Function.update_apply ..

def listAppend (m : Links ι) (list : ι) (le : LeId) (data : Option Nat) : Links ι :=
  if (m.le le).list.isSome then m
  else
    let m := m.setLe le fun _ =>
      { prev := (m.list list).tail, next := none, list := some list, data := data }
    let m :=
      if (m.list list).head.isNone then m.setList list fun l => { l with head := some le } else m
    let m :=
      match (m.list list).tail with
      | some tail => m.setLe tail fun e => { e with next := some le }
      | none => m
    m.setList list fun l => { l with tail := some le }

def listPrepend (m : Links ι) (list : ι) (le : LeId) (data : Option Nat) : Links ι :=
  if (m.le le).list.isSome then m
  else
    let m := m.setLe le fun _ =>
      { prev := none, next := (m.list list).head, list := some list, data := data }
    let m :=
      match (m.list list).head with
      | some head => m.setLe head fun e => { e with prev := some le }
      | none => m
    let m :=
      if (m.list list).tail.isNone then m.setList list fun l => { l with tail := some le } else m
    m.setList list fun l => { l with head := some le }

def listInsertBefore (m : Links ι) (list : ι) (le ile : LeId) (data : Option Nat) : Links ι :=
  if (m.le ile).list.isSome then m
  else
    let m :=
      match (m.le le).prev with
      | some prev => m.setLe prev fun e => { e with next := some ile }
      | none =>
        if (m.list list).head = some le then m.setList list fun l => { l with head := some ile }
        else m
    let m := m.setLe ile fun _ =>
      { prev := (m.le le).prev, next := some le, list := some list, data := data }
    m.setLe le fun e => { e with prev := some ile }

def listInsertAfter (m : Links ι) (list : ι) (le ile : LeId) (data : Option Nat) : Links ι :=
  if (m.le ile).list.isSome then m
  else
    let m :=
      match (m.le le).next with
      | some next => m.setLe next fun e => { e with prev := some ile }
      | none =>
        if (m.list list).tail = some le then m.setList list fun l => { l with tail := some ile }
        else m
    let m := m.setLe ile fun _ =>
      { prev := some le, next := (m.le le).next, list := some list, data := data }
    m.setLe le fun e => { e with next := some ile }

def listUnlink (m : Links ι) (le : LeId) : Links ι :=
  match (m.le le).list with
  | none => m
  | some list =>
    let m :=
      match (m.le le).prev with
      | some prev => m.setLe prev fun e => { e with next := (m.le le).next }
      | none => m.setList list fun l => { l with head := (m.le le).next }
    let m :=
      match (m.le le).next with
      | some next => m.setLe next fun e => { e with prev := (m.le le).prev }
      | none => m.setList list fun l => { l with tail := (m.le le).prev }
    m.setLe le fun e => { e with next := none, prev := none, list := none }

/-! ## Loops

A loop over a list takes a number of steps that it may make; `none` says that these were not
enough. -/

/-- The loop of `list_apply`; `step` is the pointer it follows. -/
def applyLoop (ah : LeId → Bool) (step : LeId → Option LeId) :
    Nat → Option LeId → Option (Option LeId)
  | _, none => some none
  | 0, some _ => none
  | fuel + 1, some cur => if ah cur then some (some cur) else applyLoop ah step fuel (step cur)

/-- `list_apply`: the first element that the handler accepts, from the head (`fwd`) or the tail. -/
def listApply (m : Links ι) (list : ι) (fwd : Bool) (ah : LeId → Bool) (fuel : Nat) :
    Option (Option LeId) :=
  if fwd then applyLoop ah (fun a => (m.le a).next) fuel (m.list list).head
  else applyLoop ah (fun a => (m.le a).prev) fuel (m.list list).tail

/-- The loop of `list_count`. -/
def countLoop (m : Links ι) : Nat → Option LeId → Nat → Option Nat
  | _, none, n => some n
  | 0, some _, _ => none
  | fuel + 1, some le, n => countLoop m fuel (m.le le).next ((n + 1) % 2 ^ 32)

def listCount (m : Links ι) (list : ι) (fuel : Nat) : Option Nat :=
  countLoop m fuel (m.list list).head 0

/-- One walk of `list_sort` from `le` on; the flag is the variable `sort`. -/
def sortWalk (sh : LeId → LeId → Bool) (list : ι) :
    Nat → Links ι → LeId → Bool → Option (Links ι × Bool)
  | 0, _, _, _ => none
  | fuel + 1, m, le, sort =>
    match (m.le le).next with
    | none => some (m, sort)
    | some tle =>
      if sh le tle then sortWalk sh list fuel m tle sort
      else
        sortWalk sh list fuel ((m.listUnlink le).listInsertAfter list tle le (m.le le).data) le true

/-- `list_sort`; `goto retry` is taken at most `walks` times, and `fuel` bounds each walk. -/
def listSort (sh : LeId → LeId → Bool) (list : ι) (fuel : Nat) : Nat → Links ι → Option (Links ι)
  | 0, _ => none
  | walks + 1, m =>
    match (m.list list).head with
    | none => some m
    | some le =>
      match sortWalk sh list fuel m le false with
      | none => none
      | some (m, true) => listSort sh list fuel walks m
      | some (m, false) => some m

end Links

end Autodialer
