import Autodialer.Lib.Fallible

/-!
# Computations that log what they do

A program step whose visible actions matter, and not only its result, is a
function into `Logging ω ε`: a list of actions together with a computation that
may fault. What was logged before a fault stays logged. `result` forgets the
log, and is a homomorphism, so an instrumented program is compared with the
program it instruments one construct at a time.
-/

universe u

/-- A computation that logs actions `ω` and may fault with `ε`. -/
structure Logging (ω ε α : Type u) where
  log : List ω
  result : Except ε α

namespace Logging

variable {ω ε α β : Type u}

/-- The second part runs, and logs, only if the first has a result. -/
protected def bind (x : Logging ω ε α) (f : α → Logging ω ε β) : Logging ω ε β :=
  match x.result with
  | .ok a => ⟨x.log ++ (f a).log, (f a).result⟩
  | .error e => ⟨x.log, .error e⟩

instance : Monad (Logging ω ε) where
  pure a := ⟨[], .ok a⟩
  bind := Logging.bind

/-- Logs one action. -/
def tell (w : ω) : Logging ω ε PUnit := ⟨[w], .ok ⟨⟩⟩

/-- A computation that logs nothing. -/
def lift (x : Except ε α) : Logging ω ε α := ⟨[], x⟩

/-! ## Forgetting the log -/

@[simp] theorem result_pure (a : α) : (pure a : Logging ω ε α).result = .ok a := rfl

@[simp] theorem result_lift (x : Except ε α) : (lift x : Logging ω ε α).result = x := rfl

@[simp] theorem result_bind (x : Logging ω ε α) (f : α → Logging ω ε β) :
    (x >>= f).result = x.result >>= fun a => (f a).result := by
  show (Logging.bind x f).result = _
  unfold Logging.bind
  cases x.result with
  | error e => rfl
  | ok a => rfl

/-- Logging an action does not change what follows. -/
@[simp] theorem result_tell_bind (w : ω) (f : PUnit → Logging ω ε β) :
    (tell w >>= f).result = (f ⟨⟩).result := rfl

/-! ## The log -/

@[simp] theorem log_pure (a : α) : (pure a : Logging ω ε α).log = [] := rfl

@[simp] theorem log_tell_bind (w : ω) (f : PUnit → Logging ω ε β) :
    (tell w >>= f).log = w :: (f ⟨⟩).log := rfl

theorem log_bind_ok {x : Logging ω ε α} {f : α → Logging ω ε β} {a : α} (done : x.result = .ok a) :
    (x >>= f).log = x.log ++ (f a).log := by
  show (Logging.bind x f).log = _
  rw [Logging.bind, done]

theorem log_bind_error {x : Logging ω ε α} {f : α → Logging ω ε β} {e : ε}
    (failed : x.result = .error e) : (x >>= f).log = x.log := by
  show (Logging.bind x f).log = _
  rw [Logging.bind, failed]

/-- What the first part has logged stays logged. -/
theorem mem_log_bind {x : Logging ω ε α} {f : α → Logging ω ε β} {w : ω} (mem : w ∈ x.log) :
    w ∈ (x >>= f).log := by
  cases run : x.result with
  | error e =>
    rw [log_bind_error run]
    exact mem
  | ok a =>
    rw [log_bind_ok run]
    exact List.mem_append_left _ mem

@[simp] theorem lift_ok_bind (a : α) (f : α → Logging ω ε β) : (lift (.ok a) >>= f) = f a := rfl

/-! ## What is logged -/

/-- Every action that is logged is in `P`. -/
def Logs (P : ω → Prop) (x : Logging ω ε α) : Prop := ∀ w ∈ x.log, P w

namespace Logs

variable {P : ω → Prop} {x : Logging ω ε α} {f : α → Logging ω ε β}

theorem pure (a : α) : Logs P (Pure.pure a : Logging ω ε α) := fun _ mem => by cases mem

theorem lift (y : Except ε α) : Logs P (Logging.lift y : Logging ω ε α) := fun _ mem => by cases mem

theorem tell {w : ω} {g : PUnit → Logging ω ε β} (here : P w) (rest : Logs P (g ⟨⟩)) :
    Logs P (Logging.tell w >>= g) := by
  intro w' mem
  rcases List.mem_cons.mp mem with rfl | mem
  · exact here
  · exact rest w' mem

theorem bind (first : Logs P x) (second : ∀ a, Logs P (f a)) : Logs P (x >>= f) := by
  cases run : x.result with
  | error e =>
    intro w mem
    rw [log_bind_error run] at mem
    exact first w mem
  | ok a =>
    intro w mem
    rw [log_bind_ok run] at mem
    rcases List.mem_append.mp mem with mem | mem
    · exact first w mem
    · exact second a w mem

end Logs

end Logging
