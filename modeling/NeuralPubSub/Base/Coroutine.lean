-- SUMMARY: Coroutines over a shared state that interleave only where they wait, with an invariant rule for all their interleavings.
import Mathlib

/-!
# Coroutines

A single-threaded event loop: a handler reads and writes the shared state
without interruption until it sends a message and waits for the reply, or
schedules calls of other handlers and waits for them. `World` runs any number of
such handlers in any interleaving that an environment permits. The invariant
rule `Rules.Keeps.reachable` reduces what holds in every reachable world to one
weakest precondition for each handler.
-/

namespace Base

variable {σ κ μ ε ω α β : Type}

/-! ## Programs -/

/-- Programs over a state `σ` that schedule calls `κ`, send messages `μ`, raise
exceptions `ε` and return an `α`. -/
inductive Co (σ κ μ ε α : Type) : Type where
  | ret (a : α)
  | raise (e : ε)
  | get (k : σ → Co σ κ μ ε α)
  | set (s : σ) (k : Co σ κ μ ε α)
  /-- Send a message; the program goes on with the reply, or with the exception of the send. -/
  | send (m : μ) (k : Except ε Unit → Co σ κ μ ε α)
  /-- Schedule calls and wait until all have returned or one has raised. -/
  | gather (calls : List κ) (k : Except ε Unit → Co σ κ μ ε α)

namespace Co

def bind : Co σ κ μ ε α → (α → Co σ κ μ ε β) → Co σ κ μ ε β
  | ret a, f => f a
  | raise e, _ => raise e
  | get k, f => get fun s => (k s).bind f
  | set s k, f => set s (k.bind f)
  | send m k, f => send m fun r => (k r).bind f
  | gather calls k, f => gather calls fun r => (k r).bind f

instance : Monad (Co σ κ μ ε) where
  pure := ret
  bind := bind

def read (f : σ → α) : Co σ κ μ ε α := get fun s => ret (f s)

def modify (f : σ → σ) : Co σ κ μ ε Unit := get fun s => set (f s) (ret ())

/-- Change the state and return what the change computes. -/
def update (f : σ → α × σ) : Co σ κ μ ε α := get fun s => set (f s).2 (ret (f s).1)

/-- Return the value, or raise the exception. -/
def ofExcept : Except ε α → Co σ κ μ ε α
  | .ok a => ret a
  | .error e => raise e

/-- Send a message and return its reply, an exception included. -/
def request (m : μ) : Co σ κ μ ε (Except ε Unit) := send m ret

/-- Schedule calls and wait for them; the exception of a call is raised again. -/
def gatherAll (calls : List κ) : Co σ κ μ ε Unit := gather calls ofExcept

def forEach (l : List β) (f : β → Co σ κ μ ε Unit) : Co σ κ μ ε Unit :=
  match l with
  | [] => ret ()
  | x :: l => (f x).bind fun _ => forEach l f

@[simp] theorem forEach_nil (f : β → Co σ κ μ ε Unit) : forEach [] f = pure () := rfl

@[simp] theorem forEach_cons (x : β) (l : List β) (f : β → Co σ κ μ ε Unit) :
    forEach (x :: l) f = f x >>= fun _ => forEach l f := rfl

/-! ## One uninterrupted segment -/

/-- Where a segment ends. -/
inductive Stop (σ κ μ ε α : Type) : Type where
  | ret (a : α)
  | raise (e : ε)
  | send (m : μ) (k : Except ε Unit → Co σ κ μ ε α)
  | gather (calls : List κ) (k : Except ε Unit → Co σ κ μ ε α)

/-- Run a program until it waits or ends. -/
def segment : Co σ κ μ ε α → σ → σ × Stop σ κ μ ε α
  | ret a, s => (s, .ret a)
  | raise e, s => (s, .raise e)
  | get k, s => (k s).segment s
  | set s k, _ => k.segment s
  | send m k, s => (s, .send m k)
  | gather calls k, s => (s, .gather calls k)

end Co

/-! ## Worlds -/

/-- The shared state and the record of what the handlers did: the calls that wait
to be started, those started so far, the messages sent and the calls answered. -/
structure Scene (σ κ μ ε ω : Type) where
  state : σ
  pending : List κ := []
  started : List κ := []
  sent : List μ := []
  answered : List (κ × Except ε ω) := []

namespace Scene

def withState (sc : Scene σ κ μ ε ω) (s : σ) : Scene σ κ μ ε ω := { sc with state := s }

def start (sc : Scene σ κ μ ε ω) (c : κ) : Scene σ κ μ ε ω := { sc with started := sc.started ++ [c] }

def withPending (sc : Scene σ κ μ ε ω) (calls : List κ) : Scene σ κ μ ε ω :=
  { sc with pending := calls }

def schedule (sc : Scene σ κ μ ε ω) (calls : List κ) : Scene σ κ μ ε ω :=
  sc.withPending (sc.pending ++ calls)

def emit (sc : Scene σ κ μ ε ω) (m : μ) : Scene σ κ μ ε ω := { sc with sent := sc.sent ++ [m] }

def answer (sc : Scene σ κ μ ε ω) (c : κ) (r : Except ε ω) : Scene σ κ μ ε ω :=
  { sc with answered := sc.answered ++ [(c, r)] }

variable (sc : Scene σ κ μ ε ω) (s : σ) (c : κ) (calls : List κ) (m : μ) (r : Except ε ω)

@[simp] theorem state_withState : (sc.withState s).state = s := rfl
@[simp] theorem pending_withState : (sc.withState s).pending = sc.pending := rfl
@[simp] theorem started_withState : (sc.withState s).started = sc.started := rfl
@[simp] theorem sent_withState : (sc.withState s).sent = sc.sent := rfl
@[simp] theorem answered_withState : (sc.withState s).answered = sc.answered := rfl
@[simp] theorem withState_withState (s' : σ) :
    (sc.withState s).withState s' = sc.withState s' := rfl
@[simp] theorem withState_state : sc.withState sc.state = sc := rfl
@[simp] theorem state_start : (sc.start c).state = sc.state := rfl
@[simp] theorem pending_start : (sc.start c).pending = sc.pending := rfl
@[simp] theorem started_start : (sc.start c).started = sc.started ++ [c] := rfl
@[simp] theorem sent_start : (sc.start c).sent = sc.sent := rfl
@[simp] theorem answered_start : (sc.start c).answered = sc.answered := rfl
@[simp] theorem state_withPending : (sc.withPending calls).state = sc.state := rfl
@[simp] theorem pending_withPending : (sc.withPending calls).pending = calls := rfl
@[simp] theorem started_withPending : (sc.withPending calls).started = sc.started := rfl
@[simp] theorem sent_withPending : (sc.withPending calls).sent = sc.sent := rfl
@[simp] theorem answered_withPending : (sc.withPending calls).answered = sc.answered := rfl
@[simp] theorem state_schedule : (sc.schedule calls).state = sc.state := rfl
@[simp] theorem pending_schedule : (sc.schedule calls).pending = sc.pending ++ calls := rfl
@[simp] theorem started_schedule : (sc.schedule calls).started = sc.started := rfl
@[simp] theorem sent_schedule : (sc.schedule calls).sent = sc.sent := rfl
@[simp] theorem answered_schedule : (sc.schedule calls).answered = sc.answered := rfl
@[simp] theorem state_emit : (sc.emit m).state = sc.state := rfl
@[simp] theorem pending_emit : (sc.emit m).pending = sc.pending := rfl
@[simp] theorem started_emit : (sc.emit m).started = sc.started := rfl
@[simp] theorem sent_emit : (sc.emit m).sent = sc.sent ++ [m] := rfl
@[simp] theorem answered_emit : (sc.emit m).answered = sc.answered := rfl
@[simp] theorem state_answer : (sc.answer c r).state = sc.state := rfl
@[simp] theorem pending_answer : (sc.answer c r).pending = sc.pending := rfl
@[simp] theorem started_answer : (sc.answer c r).started = sc.started := rfl
@[simp] theorem sent_answer : (sc.answer c r).sent = sc.sent := rfl
@[simp] theorem answered_answer : (sc.answer c r).answered = sc.answered ++ [(c, r)] := rfl

@[simp] theorem schedule_nil : sc.schedule [] = sc := by simp [schedule, withPending]

/-- What was started, sent and answered in the first scene was so in the second. -/
structure Before (sc sc' : Scene σ κ μ ε ω) : Prop where
  started : sc.started <+: sc'.started
  sent : sc.sent <+: sc'.sent
  answered : sc.answered <+: sc'.answered

theorem Before.refl : sc.Before sc := ⟨List.prefix_refl _, List.prefix_refl _, List.prefix_refl _⟩

theorem Before.trans {sc sc' sc'' : Scene σ κ μ ε ω} (h : sc.Before sc') (h' : sc'.Before sc'') :
    sc.Before sc'' :=
  ⟨h.started.trans h'.started, h.sent.trans h'.sent, h.answered.trans h'.answered⟩

theorem Before.start (sc : Scene σ κ μ ε ω) (c : κ) : sc.Before (sc.start c) :=
  ⟨List.prefix_append _ _, List.prefix_refl _, List.prefix_refl _⟩

theorem Before.takenUp (sc : Scene σ κ μ ε ω) (calls : List κ) (c : κ) :
    sc.Before ((sc.withPending calls).start c) :=
  ⟨List.prefix_append _ _, List.prefix_refl _, List.prefix_refl _⟩

end Scene

/-- What a suspended handler waits for. -/
inductive Wait (μ : Type) where
  | reply (m : μ)
  /-- The calls with these ids, which it has scheduled. -/
  | join (children : List ℕ)

def Wait.message? : Wait μ → Option μ
  | .reply m => some m
  | .join _ => none

/-- A suspended handler: its id, the call it runs and the state in which that
began, what it waits for and how it goes on. -/
structure Task (σ κ μ ε ω : Type) where
  id : ℕ
  call : κ
  since : σ
  wait : Wait μ
  resume : Except ε Unit → Co σ κ μ ε ω

structure World (σ κ μ ε ω : Type) where
  state : σ
  pending : List (ℕ × κ) := []
  tasks : List (Task σ κ μ ε ω) := []
  started : List κ := []
  sent : List μ := []
  finished : List (ℕ × κ × Except ε ω) := []
  nextId : ℕ := 0

namespace World

/-- The world without the suspended handlers and the ids. -/
def scene (w : World σ κ μ ε ω) : Scene σ κ μ ε ω where
  state := w.state
  pending := w.pending.map Prod.snd
  started := w.started
  sent := w.sent
  answered := w.finished.map Prod.snd

/-- Run a handler until it waits or ends, and book where it stopped. -/
def advance (w : World σ κ μ ε ω) (id : ℕ) (call : κ) (since : σ) (c : Co σ κ μ ε ω) :
    World σ κ μ ε ω :=
  match c.segment w.state with
  | (s, .ret a) => { w with state := s, finished := w.finished ++ [(id, call, .ok a)] }
  | (s, .raise e) => { w with state := s, finished := w.finished ++ [(id, call, .error e)] }
  | (s, .send m k) =>
    { w with
      state := s
      sent := w.sent ++ [m]
      tasks := w.tasks ++ [⟨id, call, since, .reply m, k⟩] }
  | (s, .gather calls k) =>
    let ids := List.range' w.nextId calls.length
    { w with
      state := s
      pending := w.pending ++ ids.zip calls
      tasks := w.tasks ++ [⟨id, call, since, .join ids, k⟩]
      nextId := w.nextId + calls.length }

/-- The outcome of waiting for calls, once it is known: the first exception that
one of them raised, or that all returned. -/
def joined (w : World σ κ μ ε ω) (children : List ℕ) : Option (Except ε Unit) :=
  let ended := w.finished.filter (·.1 ∈ children)
  match ended.findSome? fun f => match f.2.2 with | .error e => some e | .ok _ => none with
  | some e => some (.error e)
  | none => if ∀ id ∈ children, id ∈ ended.map Prod.fst then some (.ok ()) else none

end World

/-- One move of the event loop: an outside call, the start of a scheduled call,
the reply to a message, or the end of a wait for scheduled calls. -/
inductive Move (κ ε : Type) where
  | call (c : κ)
  | start (id : ℕ)
  | reply (id : ℕ) (r : Except ε Unit)
  | join (id : ℕ)

namespace World

def perform (body : κ → Co σ κ μ ε ω) (w : World σ κ μ ε ω) :
    Move κ ε → Option (World σ κ μ ε ω)
  | .call c =>
    some ({ w with started := w.started ++ [c], nextId := w.nextId + 1 }.advance w.nextId c w.state
      (body c))
  | .start id =>
    (w.pending.find? (·.1 = id)).map fun p =>
      { w with
        pending := w.pending.eraseP (·.1 = id)
        started := w.started ++ [p.2] }.advance id p.2 w.state (body p.2)
  | .reply id r =>
    (w.tasks.find? (·.id = id)).bind fun t =>
      match t.wait with
      | .reply _ =>
        some ({ w with tasks := w.tasks.eraseP (·.id = id) }.advance id t.call t.since (t.resume r))
      | .join _ => none
  | .join id =>
    (w.tasks.find? (·.id = id)).bind fun t =>
      match t.wait with
      | .reply _ => none
      | .join children =>
        (w.joined children).map fun r =>
          { w with tasks := w.tasks.eraseP (·.id = id) }.advance id t.call t.since (t.resume r)

end World

/-! ## Reachable worlds -/

/-- The handlers' programs, and what the environment may do. -/
structure Rules (σ κ μ ε ω : Type) where
  body : κ → Co σ κ μ ε ω
  mayCall : Scene σ κ μ ε ω → κ → Prop
  mayReply : Scene σ κ μ ε ω → μ → Except ε Unit → Prop
  /-- When a scheduled call may be started. -/
  mayStart : Scene σ κ μ ε ω → κ → Prop := fun _ _ => True
  /-- When the handler of a call, begun in the given state, may go on after a wait
  for scheduled calls. -/
  mayJoin : κ → σ → Scene σ κ μ ε ω → Prop := fun _ _ _ => True

namespace Rules

variable (r : Rules σ κ μ ε ω)

/-- The same programs in an environment that makes a call only where `p` holds. -/
def provided (p : Scene σ κ μ ε ω → κ → Prop) : Rules σ κ μ ε ω :=
  { r with mayCall := fun sc c => r.mayCall sc c ∧ p sc c }

/-- The environment may make the move in the world `w`. -/
def Permits (w : World σ κ μ ε ω) : Move κ ε → Prop
  | .call c => r.mayCall w.scene c
  | .start id => ∀ p ∈ w.pending, p.1 = id → r.mayStart w.scene p.2
  | .reply id e => ∀ t ∈ w.tasks, t.id = id → ∀ m, t.wait = .reply m → r.mayReply w.scene m e
  | .join id => ∀ t ∈ w.tasks, t.id = id → r.mayJoin t.call t.since w.scene

inductive Reachable (w : World σ κ μ ε ω) : World σ κ μ ε ω → Prop
  | refl : Reachable w w
  | step {w' w'' : World σ κ μ ε ω} {move : Move κ ε} : Reachable w w' → r.Permits w' move →
    w'.perform r.body move = some w'' → Reachable w w''

end Rules

/-! ## Scripted runs -/

namespace Rules

variable (r : Rules σ κ μ ε ω)

/-- What an environment permits can be decided. -/
class DecidableRules (r : Rules σ κ μ ε ω) where
  mayCall : ∀ sc c, Decidable (r.mayCall sc c)
  mayReply : ∀ sc m e, Decidable (r.mayReply sc m e)
  mayStart : ∀ sc c, Decidable (r.mayStart sc c)
  mayJoin : ∀ c s sc, Decidable (r.mayJoin c s sc)

instance [d : DecidableRules r] (w : World σ κ μ ε ω) : ∀ move, Decidable (r.Permits w move)
  | .call c => d.mayCall w.scene c
  | .start id =>
    have := d.mayStart w.scene
    inferInstanceAs (Decidable (∀ p ∈ w.pending, p.1 = id → r.mayStart w.scene p.2))
  | .reply id e =>
    have := d.mayReply w.scene
    decidable_of_iff (∀ t ∈ w.tasks, t.id = id → ∀ m ∈ t.wait.message?, r.mayReply w.scene m e)
      (forall₃_congr fun t _ _ => by cases t.wait <;> simp [Wait.message?])
  | .join id =>
    have := d.mayJoin
    inferInstanceAs (Decidable (∀ t ∈ w.tasks, t.id = id → r.mayJoin t.call t.since w.scene))

instance [d : DecidableRules r] (p : Scene σ κ μ ε ω → κ → Prop) [∀ sc c, Decidable (p sc c)] :
    DecidableRules (r.provided p) where
  mayCall sc c :=
    have := d.mayCall sc c
    inferInstanceAs (Decidable (r.mayCall sc c ∧ p sc c))
  mayReply := d.mayReply
  mayStart := d.mayStart
  mayJoin := d.mayJoin

/-- Make the moves one after the other, as long as the environment permits them. -/
def performAll [DecidableRules r] :
    List (Move κ ε) → World σ κ μ ε ω → Option (World σ κ μ ε ω)
  | [], w => some w
  | move :: moves, w =>
    if r.Permits w move then (w.perform r.body move).bind (performAll moves) else none

theorem reachable_of_performAll [DecidableRules r] {moves : List (Move κ ε)} {w w' : World σ κ μ ε ω}
    (h : r.performAll moves w = some w') : r.Reachable w w' := by
  have go : ∀ (moves : List (Move κ ε)) (v : World σ κ μ ε ω), r.Reachable w v →
      r.performAll moves v = some w' → r.Reachable w w' := by
    intro moves
    induction moves with
    | nil =>
      intro v hv h
      exact Option.some.inj h ▸ hv
    | cons move moves ih =>
      intro v hv h
      rw [performAll] at h
      split at h
      · next hp =>
        obtain ⟨v', hv', h⟩ := Option.bind_eq_some_iff.mp h
        exact ih v' (hv.step hp hv') h
      · cases h
  exact go moves w .refl h

end Rules

/-! ## A program on its own -/

/-- The state of a program that nothing interrupts, the replies that its messages
will get, and the messages sent so far with the replies they got. -/
structure Solo (σ μ ε : Type) where
  state : σ
  replies : List (Except ε Unit)
  sends : List (μ × Except ε Unit) := []

namespace Co

/-- Run a program on its own. It stops without an outcome when it schedules calls
or when the replies run out. -/
def alone : Co σ κ μ ε α → Solo σ μ ε → Option (Except ε α) × Solo σ μ ε
  | ret a, s => (some (.ok a), s)
  | raise e, s => (some (.error e), s)
  | get k, s => (k s.state).alone s
  | set x k, s => k.alone { s with state := x }
  | send m k, s =>
    match s.replies with
    | [] => (none, s)
    | r :: replies => (k r).alone { s with replies := replies, sends := s.sends ++ [(m, r)] }
  | gather _ _, s => (none, s)

section Alone

variable (s : Solo σ μ ε)

@[simp] theorem alone_pure (a : α) : (pure a : Co σ κ μ ε α).alone s = (some (.ok a), s) := rfl

@[simp] theorem alone_raise (e : ε) : (raise e : Co σ κ μ ε α).alone s = (some (.error e), s) := rfl

@[simp] theorem alone_read (f : σ → α) :
    (read f : Co σ κ μ ε α).alone s = (some (.ok (f s.state)), s) := rfl

@[simp] theorem alone_modify (f : σ → σ) : (modify f : Co σ κ μ ε Unit).alone s =
    (some (.ok ()), { s with state := f s.state }) := rfl

@[simp] theorem alone_ofExcept (x : Except ε α) :
    (ofExcept x : Co σ κ μ ε α).alone s = (some x, s) := by
  cases x <;> rfl

@[simp] theorem alone_request (m : μ) (x : σ) (r : Except ε Unit) (replies : List (Except ε Unit))
    (sends : List (μ × Except ε Unit)) :
    (request m : Co σ κ μ ε (Except ε Unit)).alone ⟨x, r :: replies, sends⟩ =
      (some (.ok r), ⟨x, replies, sends ++ [(m, r)]⟩) := rfl

@[simp] theorem alone_bind (c : Co σ κ μ ε α) (f : α → Co σ κ μ ε β) :
    (c >>= f).alone s =
      match c.alone s with
      | (some (.ok a), s') => (f a).alone s'
      | (some (.error e), s') => (some (.error e), s')
      | (none, s') => (none, s') := by
  induction c generalizing s with
  | ret a => rfl
  | raise e => rfl
  | get k ih => exact ih s.state s
  | set x k ih => exact ih { s with state := x }
  | send m k ih =>
    obtain ⟨x, replies, sends⟩ := s
    cases replies with
    | nil => rfl
    | cons r replies => exact ih r ⟨x, replies, sends ++ [(m, r)]⟩
  | gather calls k ih => rfl

end Alone
end Co

/-! ## A program whose sends succeed -/

/-- How a program ended, the state it left and the messages it sent. -/
structure Outcome (σ μ ε α : Type) where
  result : Except ε α
  state : σ
  sent : List μ := []

namespace Outcome

/-- What came of a program that has sent messages before. -/
def after (o : Outcome σ μ ε α) (sent : List μ) : Outcome σ μ ε α := { o with sent := sent ++ o.sent }

/-- Go on with the value of a program that returned one. -/
def andThen (o : Outcome σ μ ε α) (f : α → σ → Outcome σ μ ε β) : Outcome σ μ ε β :=
  match o.result with
  | .ok a => (f a o.state).after o.sent
  | .error e => { o with result := .error e }

@[simp] theorem after_nil (o : Outcome σ μ ε α) : o.after [] = o := rfl

@[simp] theorem andThen_ok (a : α) (s : σ) (sent : List μ) (f : α → σ → Outcome σ μ ε β) :
    ({ result := .ok a, state := s, sent := sent } : Outcome σ μ ε α).andThen f =
      (f a s).after sent := rfl

@[simp] theorem andThen_error (e : ε) (s : σ) (sent : List μ) (f : α → σ → Outcome σ μ ε β) :
    ({ result := .error e, state := s, sent := sent } : Outcome σ μ ε α).andThen f =
      { result := .error e, state := s, sent := sent } := rfl

theorem after_andThen (o : Outcome σ μ ε α) (sent : List μ) (f : α → σ → Outcome σ μ ε β) :
    (o.after sent).andThen f = (o.andThen f).after sent := by
  unfold andThen
  rw [show (o.after sent).result = o.result from rfl]
  cases o.result with
  | ok a =>
    show ((f a o.state).after (sent ++ o.sent)) = ((f a o.state).after o.sent).after sent
    simp [after]
  | error e => rfl

end Outcome

namespace Co

variable (run : κ → σ → Outcome σ μ ε ω)

/-- Run calls one after the other. All of them run, and the first exception counts. -/
def runCalls : List κ → σ → Outcome σ μ ε Unit
  | [], s => { result := .ok (), state := s }
  | c :: calls, s =>
    let o := run c s
    let rest := runCalls calls o.state
    { result := o.result.bind fun _ => rest.result, state := rest.state, sent := o.sent ++ rest.sent }

/-- Run a program on its own where every send succeeds, and the calls that it schedules
run to their ends where it waits for them. -/
def unhindered : Co σ κ μ ε α → σ → Outcome σ μ ε α
  | ret a, s => { result := .ok a, state := s }
  | raise e, s => { result := .error e, state := s }
  | get k, s => (k s).unhindered s
  | set x k, _ => k.unhindered x
  | send m k, s => ((k (.ok ())).unhindered s).after [m]
  | gather calls k, s =>
    let o := runCalls run calls s
    ((k o.result).unhindered o.state).after o.sent

variable {run} {s : σ}

@[simp] theorem unhindered_pure (a : α) : (pure a : Co σ κ μ ε α).unhindered run s =
    { result := .ok a, state := s } := rfl

@[simp] theorem unhindered_raise (e : ε) : (raise e : Co σ κ μ ε α).unhindered run s =
    { result := .error e, state := s } := rfl

@[simp] theorem unhindered_read (f : σ → α) : (read f : Co σ κ μ ε α).unhindered run s =
    { result := .ok (f s), state := s } := rfl

@[simp] theorem unhindered_modify (f : σ → σ) : (modify f : Co σ κ μ ε Unit).unhindered run s =
    { result := .ok (), state := f s } := rfl

@[simp] theorem unhindered_ofExcept (x : Except ε α) :
    (ofExcept x : Co σ κ μ ε α).unhindered run s = { result := x, state := s } := by
  cases x <;> rfl

@[simp] theorem unhindered_request (m : μ) :
    (request m : Co σ κ μ ε (Except ε Unit)).unhindered run s =
      { result := .ok (.ok ()), state := s, sent := [m] } := rfl

@[simp] theorem unhindered_gatherAll (calls : List κ) :
    (gatherAll calls : Co σ κ μ ε Unit).unhindered run s = runCalls run calls s := by
  show ((ofExcept (runCalls run calls s).result : Co σ κ μ ε Unit).unhindered run
    (runCalls run calls s).state).after (runCalls run calls s).sent = _
  simp [Outcome.after]

theorem unhindered_bind (c : Co σ κ μ ε α) (f : α → Co σ κ μ ε β) : (c >>= f).unhindered run s =
    (c.unhindered run s).andThen fun a s' => (f a).unhindered run s' := by
  induction c generalizing s with
  | ret a => rfl
  | raise e => rfl
  | get k ih => exact ih s
  | set x k ih => exact ih
  | send m k ih =>
    show (((k (.ok ())).bind f).unhindered run s).after [m] = _
    rw [show ((k (.ok ())).bind f).unhindered run s = _ from ih (.ok ()), ← Outcome.after_andThen]
    rfl
  | gather calls k ih =>
    let o := runCalls run calls s
    show (((k o.result).bind f).unhindered run o.state).after o.sent = _
    rw [show ((k o.result).bind f).unhindered run o.state = _ from ih o.result,
      ← Outcome.after_andThen]
    rfl

/-- A program that runs to its end on its own sends nothing. -/
theorem unhindered_of_alone {c : Co σ κ μ ε α} {sends : List (μ × Except ε Unit)}
    {out : Except ε α} {s' : Solo σ μ ε} (h : c.alone ⟨s, [], sends⟩ = (some out, s')) :
    c.unhindered run s = { result := out, state := s'.state } := by
  induction c generalizing s with
  | ret a =>
    obtain ⟨hout, rfl⟩ := Prod.mk.inj h
    exact Option.some.inj hout ▸ rfl
  | raise e =>
    obtain ⟨hout, rfl⟩ := Prod.mk.inj h
    exact Option.some.inj hout ▸ rfl
  | get k ih => exact ih s h
  | set x k ih => exact ih h
  | send m k ih => cases h
  | gather calls k ih => cases h

section RunCalls

variable {R : σ → Prop} {calls : List κ}

theorem runCalls_invariant (hR : R s) (hstep : ∀ c ∈ calls, ∀ s, R s → R (run c s).state) :
    R (runCalls run calls s).state := by
  induction calls generalizing s with
  | nil => exact hR
  | cons c calls ih =>
    apply ih
    · exact hstep c (by simp) s hR
    · exact fun c' hc' => hstep c' (by simp [hc'])

/-- Whatever is sent is sent by one of the calls. -/
theorem mem_sent_runCalls {m : μ} (hR : R s) (hstep : ∀ c ∈ calls, ∀ s, R s → R (run c s).state)
    (hm : m ∈ (runCalls run calls s).sent) : ∃ c ∈ calls, ∃ s', R s' ∧ m ∈ (run c s').sent := by
  induction calls generalizing s with
  | nil => cases hm
  | cons c calls ih =>
    rcases List.mem_append.mp hm with hfirst | hrest
    · exact ⟨c, by simp, s, hR, hfirst⟩
    · obtain ⟨c', hc', hsent⟩ := ih (hstep c (by simp) s hR)
        (fun c' hc' => hstep c' (by simp [hc'])) hrest
      exact ⟨c', by simp [hc'], hsent⟩

/-- Whatever a call sends in any case is sent. -/
theorem mem_sent_of_mem {m : μ} {c : κ} (hR : R s)
    (hstep : ∀ c ∈ calls, ∀ s, R s → R (run c s).state) (hc : c ∈ calls)
    (hsent : ∀ s', R s' → m ∈ (run c s').sent) : m ∈ (runCalls run calls s).sent := by
  induction calls generalizing s with
  | nil => cases hc
  | cons c' calls ih =>
    apply List.mem_append.mpr
    rcases List.mem_cons.mp hc with rfl | hc
    · exact .inl (hsent s hR)
    · exact .inr (ih (hstep c' (by simp) s hR) (fun c hc => hstep c (by simp [hc])) hc)

end RunCalls
end Co

/-! ## Weakest preconditions -/

/-- What a handler that has waited may rely on when it goes on. -/
structure Wake (σ κ μ ε ω : Type) where
  reply : Scene σ κ μ ε ω → μ → Except ε Unit → Prop
  join : Scene σ κ μ ε ω → Prop

/-- A handler that goes on only in scenes with `I`. -/
def Wake.given (r : Wake σ κ μ ε ω) (I : Scene σ κ μ ε ω → Prop) : Wake σ κ μ ε ω where
  reply sc m e := r.reply sc m e ∧ I sc
  join sc := r.join sc ∧ I sc

/-- What the handler of a call may rely on that began in the given state. -/
def Rules.wake (r : Rules σ κ μ ε ω) (c : κ) (since : σ) : Wake σ κ μ ε ω where
  reply := r.mayReply
  join := r.mayJoin c since

namespace Co

variable (r : Wake σ κ μ ε ω) (I : Scene σ κ μ ε ω → Prop) (E : ε → Scene σ κ μ ε ω → Prop)

/-- From the scene, the program ends in `Q`, or raises in `E`, and `I` holds
wherever it waits; while it waits the scene may change to any later one with `I`. -/
def wp : Co σ κ μ ε α → (α → Scene σ κ μ ε ω → Prop) → Scene σ κ μ ε ω → Prop
  | ret a, Q, sc => Q a sc
  | raise e, _, sc => E e sc
  | get k, Q, sc => (k sc.state).wp Q sc
  | set s k, Q, sc => k.wp Q (sc.withState s)
  | send m k, Q, sc =>
    I (sc.emit m) ∧ ∀ e sc', I sc' → (sc.emit m).Before sc' → r.reply sc' m e → (k e).wp Q sc'
  | gather calls k, Q, sc =>
    I (sc.schedule calls) ∧ ∀ e sc', I sc' → (sc.schedule calls).Before sc' → r.join sc' →
      (k e).wp Q sc'

variable {r I E} {Q : α → Scene σ κ μ ε ω → Prop} {sc : Scene σ κ μ ε ω}

@[simp] theorem wp_pure (a : α) : (pure a : Co σ κ μ ε α).wp r I E Q sc ↔ Q a sc := Iff.rfl

@[simp] theorem wp_ret (a : α) : (ret a : Co σ κ μ ε α).wp r I E Q sc ↔ Q a sc := Iff.rfl

@[simp] theorem wp_raise (e : ε) : (raise e : Co σ κ μ ε α).wp r I E Q sc ↔ E e sc := Iff.rfl

@[simp] theorem wp_read (f : σ → α) : (read f : Co σ κ μ ε α).wp r I E Q sc ↔ Q (f sc.state) sc :=
  Iff.rfl

@[simp] theorem wp_modify (f : σ → σ) {Q : Unit → Scene σ κ μ ε ω → Prop} :
    (modify f : Co σ κ μ ε Unit).wp r I E Q sc ↔ Q () (sc.withState (f sc.state)) := Iff.rfl

@[simp] theorem wp_update (f : σ → α × σ) : (update f : Co σ κ μ ε α).wp r I E Q sc ↔
    Q (f sc.state).1 (sc.withState (f sc.state).2) := Iff.rfl

@[simp] theorem wp_ofExcept (x : Except ε α) : (ofExcept x : Co σ κ μ ε α).wp r I E Q sc ↔
    match x with | .ok a => Q a sc | .error e => E e sc := by
  cases x <;> rfl

@[simp] theorem wp_request (m : μ) {Q : Except ε Unit → Scene σ κ μ ε ω → Prop} :
    (request m : Co σ κ μ ε (Except ε Unit)).wp r I E Q sc ↔
      I (sc.emit m) ∧ ∀ e sc', I sc' → (sc.emit m).Before sc' → r.reply sc' m e → Q e sc' := Iff.rfl

@[simp] theorem wp_gatherAll (calls : List κ) {Q : Unit → Scene σ κ μ ε ω → Prop} :
    (gatherAll calls : Co σ κ μ ε Unit).wp r I E Q sc ↔
      I (sc.schedule calls) ∧ ∀ sc', I sc' → (sc.schedule calls).Before sc' → r.join sc' →
        Q () sc' ∧ ∀ e, E e sc' := by
  apply and_congr_right
  intro _
  constructor
  · exact fun h sc' hI hb hj => ⟨h (.ok ()) sc' hI hb hj, fun e => h (.error e) sc' hI hb hj⟩
  · intro h e sc' hI hb hj
    cases e with
    | ok u => exact (h sc' hI hb hj).1
    | error e => exact (h sc' hI hb hj).2 e

theorem wp_bind (c : Co σ κ μ ε α) (f : α → Co σ κ μ ε β) {Q : β → Scene σ κ μ ε ω → Prop} :
    (c.bind f).wp r I E Q sc ↔ c.wp r I E (fun a sc => (f a).wp r I E Q sc) sc := by
  induction c generalizing sc with
  | ret a => exact Iff.rfl
  | raise e => exact Iff.rfl
  | get k ih => exact ih _
  | set s k ih => exact ih
  | send m k ih =>
    exact and_congr_right fun _ => forall₅_congr fun e _ _ _ _ => ih e
  | gather calls k ih =>
    exact and_congr_right fun _ => forall₅_congr fun e _ _ _ _ => ih e

@[simp] theorem wp_monad_bind (c : Co σ κ μ ε α) (f : α → Co σ κ μ ε β)
    {Q : β → Scene σ κ μ ε ω → Prop} :
    (c >>= f).wp r I E Q sc ↔ c.wp r I E (fun a sc => (f a).wp r I E Q sc) sc := wp_bind c f

theorem wp_mono {c : Co σ κ μ ε α} {E' : ε → Scene σ κ μ ε ω → Prop}
    {Q' : α → Scene σ κ μ ε ω → Prop} (hE : ∀ e sc, E e sc → E' e sc)
    (hQ : ∀ a sc, Q a sc → Q' a sc) (h : c.wp r I E Q sc) : c.wp r I E' Q' sc := by
  induction c generalizing sc with
  | ret a => exact hQ a sc h
  | raise e => exact hE e sc h
  | get k ih => exact ih _ h
  | set s k ih => exact ih h
  | send m k ih => exact ⟨h.1, fun e sc' hI hb hr => ih e (h.2 e sc' hI hb hr)⟩
  | gather calls k ih => exact ⟨h.1, fun e sc' hI hb hj => ih e (h.2 e sc' hI hb hj)⟩

/-- What the program keeps where another condition holds is kept together with it. -/
theorem wp_and {c : Co σ κ μ ε α} {J : Scene σ κ μ ε ω → Prop} {F : ε → Scene σ κ μ ε ω → Prop}
    {R : α → Scene σ κ μ ε ω → Prop} (h : c.wp r I E Q sc) (h' : c.wp (r.given I) J F R sc) :
    c.wp r (fun sc => I sc ∧ J sc) (fun e sc => E e sc ∧ F e sc) (fun a sc => Q a sc ∧ R a sc) sc := by
  induction c generalizing sc with
  | ret a => exact ⟨h, h'⟩
  | raise e => exact ⟨h, h'⟩
  | get k ih => exact ih _ h h'
  | set s k ih => exact ih h h'
  | send m k ih =>
    exact ⟨⟨h.1, h'.1⟩, fun e sc' hI hb hr => ih e (h.2 e sc' hI.1 hb hr)
      (h'.2 e sc' hI.2 hb ⟨hr, hI.1⟩)⟩
  | gather calls k ih =>
    exact ⟨⟨h.1, h'.1⟩, fun e sc' hI hb hj => ih e (h.2 e sc' hI.1 hb hj)
      (h'.2 e sc' hI.2 hb ⟨hj, hI.1⟩)⟩

/-- A handler that may rely on more. -/
theorem wp_wake {c : Co σ κ μ ε α} {r' : Wake σ κ μ ε ω}
    (hreply : ∀ sc m e, I sc → r'.reply sc m e → r.reply sc m e)
    (hjoin : ∀ sc, I sc → r'.join sc → r.join sc) (h : c.wp r I E Q sc) : c.wp r' I E Q sc := by
  induction c generalizing sc with
  | ret a => exact h
  | raise e => exact h
  | get k ih => exact ih _ h
  | set s k ih => exact ih h
  | send m k ih =>
    exact ⟨h.1, fun e sc' hI hb hr => ih e (h.2 e sc' hI hb (hreply sc' m e hI hr))⟩
  | gather calls k ih =>
    exact ⟨h.1, fun e sc' hI hb hj => ih e (h.2 e sc' hI hb (hjoin sc' hI hj))⟩

/-- A program that runs to its end on its own does what it does on its own. -/
theorem wp_of_alone {c : Co σ κ μ ε α} {sends : List (μ × Except ε Unit)}
    {out : Except ε α} {s' : Solo σ μ ε} (h : c.alone ⟨sc.state, [], sends⟩ = (some out, s'))
    (hok : ∀ a, out = .ok a → Q a (sc.withState s'.state))
    (herror : ∀ e, out = .error e → E e (sc.withState s'.state)) : c.wp r I E Q sc := by
  induction c generalizing sc with
  | ret a =>
    obtain ⟨hout, rfl⟩ := Prod.mk.inj h
    exact hok a (Option.some.inj hout).symm
  | raise e =>
    obtain ⟨hout, rfl⟩ := Prod.mk.inj h
    exact herror e (Option.some.inj hout).symm
  | get k ih => exact ih _ h hok herror
  | set s k ih => exact @ih (sc.withState s) h hok herror
  | send m k ih => cases h
  | gather calls k ih => cases h

/-- The rule for a loop: one iteration keeps `R`. -/
theorem wp_forEach {l : List β} {f : β → Co σ κ μ ε Unit} {R : Scene σ κ μ ε ω → Prop}
    (h : ∀ x ∈ l, ∀ sc, R sc → (f x).wp r I E (fun _ => R) sc) (hR : R sc) :
    (forEach l f).wp r I E (fun _ => R) sc := by
  induction l generalizing sc with
  | nil => exact hR
  | cons x l ih =>
    rw [forEach, wp_bind]
    exact wp_mono (fun _ _ h => h) (fun _ sc hR => ih (fun y hy => h y (by simp [hy])) hR) (h x (by simp) sc hR)

/-- Where an uninterrupted segment of a correct program leaves the scene. -/
theorem wp_segment {c : Co σ κ μ ε α} (h : c.wp r I E Q sc) :
    match c.segment sc.state with
    | (s, .ret a) => Q a (sc.withState s)
    | (s, .raise e) => E e (sc.withState s)
    | (s, .send m k) => I ((sc.withState s).emit m) ∧
        ∀ e sc', I sc' → ((sc.withState s).emit m).Before sc' → r.reply sc' m e →
          (k e).wp r I E Q sc'
    | (s, .gather calls k) => I ((sc.withState s).schedule calls) ∧
        ∀ e sc', I sc' → ((sc.withState s).schedule calls).Before sc' → r.join sc' →
          (k e).wp r I E Q sc' := by
  induction c generalizing sc with
  | ret a => exact h
  | raise e => exact h
  | get k ih => exact ih _ h
  | set s k ih => exact @ih (sc.withState s) h
  | send m k ih => exact h
  | gather calls k ih => exact h

end Co

/-! ## Programs that keep a condition -/

namespace Co

variable (r : Wake σ κ μ ε ω) (I : Scene σ κ μ ε ω → Prop)

/-- From any scene with `I`, the program ends, raises and waits with `I`. -/
def Preserves (c : Co σ κ μ ε α) : Prop :=
  ∀ sc, I sc → c.wp r I (fun _ => I) (fun _ => I) sc

variable {r I}

theorem preserves_pure (a : α) : (pure a : Co σ κ μ ε α).Preserves r I := fun _ h => h

theorem preserves_raise (e : ε) : (raise e : Co σ κ μ ε α).Preserves r I := fun _ h => h

theorem preserves_read (f : σ → α) : (read f : Co σ κ μ ε α).Preserves r I := fun _ h => h

theorem preserves_ofExcept (x : Except ε α) : (ofExcept x : Co σ κ μ ε α).Preserves r I := by
  cases x <;> exact fun _ h => h

theorem preserves_modify {f : σ → σ} (h : ∀ sc, I sc → I (sc.withState (f sc.state))) :
    (modify f : Co σ κ μ ε Unit).Preserves r I := h

theorem preserves_update {f : σ → α × σ} (h : ∀ sc, I sc → I (sc.withState (f sc.state).2)) :
    (update f : Co σ κ μ ε α).Preserves r I := h

theorem preserves_request {m : μ} (h : ∀ sc, I sc → I (sc.emit m)) :
    (request m : Co σ κ μ ε (Except ε Unit)).Preserves r I :=
  fun sc hI => ⟨h sc hI, fun _ _ hI' _ _ => hI'⟩

theorem Preserves.bind {c : Co σ κ μ ε α} {f : α → Co σ κ μ ε β} (hc : c.Preserves r I)
    (hf : ∀ a, (f a).Preserves r I) : (c >>= f).Preserves r I := fun sc hI =>
  (wp_bind c f).mpr (wp_mono (fun _ _ h => h) (fun a sc' h => hf a sc' h) (hc sc hI))

theorem preserves_forEach {l : List β} {f : β → Co σ κ μ ε Unit}
    (h : ∀ x ∈ l, (f x).Preserves r I) : (forEach l f).Preserves r I :=
  fun _ hI => wp_forEach h hI

/-- Where a program that runs to its end on its own leaves the scene. -/
theorem Preserves.of_alone {c : Co σ κ μ ε α} (h : c.Preserves r I) {sc : Scene σ κ μ ε ω}
    (hI : I sc) {sends : List (μ × Except ε Unit)} {out : Except ε α} {s' : Solo σ μ ε}
    (ha : c.alone ⟨sc.state, [], sends⟩ = (some out, s')) : I (sc.withState s'.state) := by
  have hwp := h sc hI
  clear h hI
  induction c generalizing sc with
  | ret a =>
    obtain ⟨-, rfl⟩ := Prod.mk.inj ha
    exact hwp
  | raise e =>
    obtain ⟨-, rfl⟩ := Prod.mk.inj ha
    exact hwp
  | get k ih => exact ih _ ha hwp
  | set s k ih => exact @ih (sc.withState s) ha hwp
  | send m k ih => cases ha
  | gather calls k ih => cases ha

/-- From any scene with `J` the program ends with `J`, whereas it raises and waits with
`I` only: what it may rely on when it goes on has to give `J` back. -/
def Carries (r : Wake σ κ μ ε ω) (I J : Scene σ κ μ ε ω → Prop) (c : Co σ κ μ ε α) : Prop :=
  ∀ sc, J sc → c.wp r I (fun _ => I) (fun _ => J) sc

variable {J : Scene σ κ μ ε ω → Prop}

theorem carries_pure (a : α) : (pure a : Co σ κ μ ε α).Carries r I J := fun _ h => h

theorem carries_raise (hJ : ∀ sc, J sc → I sc) (e : ε) : (raise e : Co σ κ μ ε α).Carries r I J := hJ

theorem carries_read (f : σ → α) : (read f : Co σ κ μ ε α).Carries r I J := fun _ h => h

theorem carries_ofExcept (hJ : ∀ sc, J sc → I sc) (x : Except ε α) :
    (ofExcept x : Co σ κ μ ε α).Carries r I J := by
  cases x with
  | ok a => exact carries_pure a
  | error e => exact carries_raise hJ e

theorem carries_modify {f : σ → σ} (h : ∀ sc, J sc → J (sc.withState (f sc.state))) :
    (modify f : Co σ κ μ ε Unit).Carries r I J := h

theorem carries_update {f : σ → α × σ} (h : ∀ sc, J sc → J (sc.withState (f sc.state).2)) :
    (update f : Co σ κ μ ε α).Carries r I J := h

theorem Carries.bind {c : Co σ κ μ ε α} {f : α → Co σ κ μ ε β} (hc : c.Carries r I J)
    (hf : ∀ a, (f a).Carries r I J) : (c >>= f).Carries r I J := fun sc hJ =>
  (wp_bind c f).mpr (wp_mono (fun _ _ h => h) (fun a sc' h => hf a sc' h) (hc sc hJ))

theorem carries_forEach {l : List β} {f : β → Co σ κ μ ε Unit}
    (h : ∀ x ∈ l, (f x).Carries r I J) : (forEach l f).Carries r I J :=
  fun _ hJ => wp_forEach h hJ

end Co

/-! ## The invariant rule -/

namespace Rules

variable (r : Rules σ κ μ ε ω) (I : Scene σ κ μ ε ω → Prop)

/-- The handler of `c`, begun in `since`, keeps the invariant from the scene on in
which it goes on as `prog`. -/
def Safe (c : κ) (since : σ) (prog : Co σ κ μ ε ω) (sc : Scene σ κ μ ε ω) : Prop :=
  prog.wp (r.wake c since) I (fun e sc => I (sc.answer c (.error e)))
    (fun a sc => I (sc.answer c (.ok a))) sc

/-- Every handler keeps the invariant, whether called from outside or scheduled. -/
structure Keeps : Prop where
  call : ∀ sc c, I sc → r.mayCall sc c → r.Safe I c sc.state (r.body c) (sc.start c)
  start : ∀ sc c pre post, sc.pending = pre ++ c :: post → I sc → r.mayStart sc c →
    r.Safe I c sc.state (r.body c) ((sc.withPending (pre ++ post)).start c)

/-- What a suspended handler may rely on when it goes on in the scene. -/
def Wakes (t : Task σ κ μ ε ω) (e : Except ε Unit) (sc : Scene σ κ μ ε ω) : Prop :=
  match t.wait with
  | .reply m => r.mayReply sc m e
  | .join _ => r.mayJoin t.call t.since sc

/-- The suspended handlers keep the invariant when they go on in a scene later
than `sc`. -/
def TasksSafe (tasks : List (Task σ κ μ ε ω)) (sc : Scene σ κ μ ε ω) : Prop :=
  ∀ t ∈ tasks, ∀ e sc', I sc' → sc.Before sc' → r.Wakes t e sc' →
    r.Safe I t.call t.since (t.resume e) sc'

/-- The invariant holds, and every suspended handler will keep it. -/
structure Sound (w : World σ κ μ ε ω) : Prop where
  scene : I w.scene
  tasks : r.TasksSafe I w.tasks w.scene

variable {r I}

theorem exists_split_of_find? {l : List α} {p : α → Bool} {a : α} (h : l.find? p = some a) :
    ∃ pre post, l = pre ++ a :: post ∧ l.eraseP p = pre ++ post := by
  obtain ⟨ha, pre, post, rfl, hpre⟩ := List.find?_eq_some_iff_append.mp h
  refine ⟨pre, post, rfl, ?_⟩
  rw [List.eraseP_append_right _ fun b hb => by simpa using hpre b hb, List.eraseP_cons_of_pos ha]

theorem TasksSafe.later {tasks : List (Task σ κ μ ε ω)} {sc sc' : Scene σ κ μ ε ω}
    (h : r.TasksSafe I tasks sc) (hb : sc.Before sc') : r.TasksSafe I tasks sc' :=
  fun t ht e sc'' hI hb' => h t ht e sc'' hI (hb.trans hb')

theorem TasksSafe.eraseP {tasks : List (Task σ κ μ ε ω)} {sc : Scene σ κ μ ε ω}
    (h : r.TasksSafe I tasks sc) (p : Task σ κ μ ε ω → Bool) :
    r.TasksSafe I (tasks.eraseP p) sc :=
  fun t ht => h t (List.mem_of_mem_eraseP ht)

theorem before_advance (w : World σ κ μ ε ω) (id : ℕ) (c : κ) (since : σ) (prog : Co σ κ μ ε ω) :
    w.scene.Before (w.advance id c since prog).scene := by
  unfold World.advance
  rcases prog.segment w.state with ⟨s, a | e | ⟨m, k⟩ | ⟨calls, k⟩⟩ <;>
    constructor <;> simp [World.scene]

/-- Where a handler that keeps the condition stops, the condition holds. -/
theorem Safe.scene_advance {w : World σ κ μ ε ω} {id : ℕ} {c : κ} {since : σ} {prog : Co σ κ μ ε ω}
    (h : r.Safe I c since prog w.scene) : I (w.advance id c since prog).scene := by
  have hseg := Co.wp_segment h
  unfold World.advance
  rw [show w.scene.state = w.state from rfl] at hseg
  rcases hstop : prog.segment w.state with ⟨s, stop⟩
  rw [hstop] at hseg
  cases stop with
  | ret a => simpa [World.scene, Scene.answer, Scene.withState] using hseg
  | raise e => simpa [World.scene, Scene.answer, Scene.withState] using hseg
  | send m k => simpa [World.scene, Scene.emit, Scene.withState] using hseg.1
  | gather calls k =>
    have hids : ((List.range' w.nextId calls.length).zip calls).map Prod.snd = calls :=
      List.map_snd_zip (by simp)
    simpa [World.scene, Scene.schedule, Scene.withPending, Scene.withState, hids] using hseg.1

/-- The same for a call from outside. -/
theorem Safe.scene_call {w w' : World σ κ μ ε ω} {c : κ}
    (h : r.Safe I c w.state (r.body c) (w.scene.start c))
    (hw : w.perform r.body (.call c) = some w') : I w'.scene := by
  obtain rfl := Option.some.inj hw
  let started := { w with started := w.started ++ [c], nextId := w.nextId + 1 }
  exact Safe.scene_advance (w := started) h

theorem Sound.advance {w : World σ κ μ ε ω} {id : ℕ} {c : κ} {since : σ} {prog : Co σ κ μ ε ω}
    (htasks : r.TasksSafe I w.tasks w.scene) (h : r.Safe I c since prog w.scene) :
    r.Sound I (w.advance id c since prog) := by
  have htasks := htasks.later (before_advance w id c since prog)
  refine ⟨h.scene_advance, ?_⟩
  have hseg := Co.wp_segment h
  revert htasks
  unfold World.advance
  rw [show w.scene.state = w.state from rfl] at hseg
  rcases hstop : prog.segment w.state with ⟨s, stop⟩
  rw [hstop] at hseg
  intro htasks
  cases stop with
  | ret a => exact htasks
  | raise e => exact htasks
  | send m k =>
    intro t ht
    rcases List.mem_append.mp ht with ht | ht
    · exact htasks t ht
    · obtain rfl := List.mem_singleton.mp ht
      exact hseg.2
  | gather calls k =>
    intro t ht
    rcases List.mem_append.mp ht with ht | ht
    · exact htasks t ht
    · obtain rfl := List.mem_singleton.mp ht
      exact fun e sc' hI hb => hseg.2 e sc' hI ⟨hb.started, hb.sent, hb.answered⟩

theorem Sound.perform (hk : r.Keeps I) {w w' : World σ κ μ ε ω} (h : r.Sound I w) {move : Move κ ε}
    (hp : r.Permits w move) (hw : w.perform r.body move = some w') : r.Sound I w' := by
  cases move with
  | call c =>
    obtain rfl := Option.some.inj hw
    exact Sound.advance (h.tasks.later (.start w.scene c)) (hk.call w.scene c h.scene hp)
  | start id =>
    obtain ⟨p, hfind, rfl⟩ := Option.map_eq_some_iff.mp hw
    obtain ⟨pre, post, hsplit, herase⟩ := exists_split_of_find? hfind
    refine Sound.advance (h.tasks.later
      ⟨List.prefix_append _ _, List.prefix_refl _, List.prefix_refl _⟩) ?_
    have hstart := hp p (by simp [hsplit]) (by simpa using List.find?_some hfind)
    have hsafe := hk.start w.scene p.2 (pre.map Prod.snd) (post.map Prod.snd)
      (by simp [World.scene, hsplit]) h.scene hstart
    simpa [World.scene, Scene.withPending, Scene.start, herase] using hsafe
  | reply id e =>
    obtain ⟨t, hfind, hw⟩ := Option.bind_eq_some_iff.mp hw
    have ht := List.mem_of_find?_eq_some hfind
    have hid : t.id = id := by simpa using List.find?_some hfind
    cases hwait : t.wait with
    | join children => simp [hwait] at hw
    | reply m =>
      simp only [hwait, Option.some.injEq] at hw
      subst hw
      have hwakes : r.Wakes t e w.scene := by simpa [Wakes, hwait] using hp t ht hid m hwait
      exact Sound.advance (h.tasks.eraseP _) (h.tasks t ht e _ h.scene (.refl _) hwakes)
  | join id =>
    obtain ⟨t, hfind, hw⟩ := Option.bind_eq_some_iff.mp hw
    have ht := List.mem_of_find?_eq_some hfind
    have hid : t.id = id := by simpa using List.find?_some hfind
    cases hwait : t.wait with
    | reply m => simp [hwait] at hw
    | join children =>
      simp only [hwait] at hw
      obtain ⟨e, -, rfl⟩ := Option.map_eq_some_iff.mp hw
      have hwakes : r.Wakes t e w.scene := by simpa [Wakes, hwait] using hp t ht hid
      exact Sound.advance (h.tasks.eraseP _) (h.tasks t ht e _ h.scene (.refl _) hwakes)

/-- What has happened stays in the record. -/
theorem before_perform {w w' : World σ κ μ ε ω} {move : Move κ ε}
    (hw : w.perform r.body move = some w') : w.scene.Before w'.scene := by
  cases move with
  | call c =>
    obtain rfl := Option.some.inj hw
    refine Scene.Before.trans ?_ (before_advance ..)
    exact ⟨List.prefix_append _ _, List.prefix_refl _, List.prefix_refl _⟩
  | start id =>
    obtain ⟨p, -, rfl⟩ := Option.map_eq_some_iff.mp hw
    refine Scene.Before.trans ?_ (before_advance ..)
    exact ⟨List.prefix_append _ _, List.prefix_refl _, List.prefix_refl _⟩
  | reply id e =>
    obtain ⟨t, -, hw⟩ := Option.bind_eq_some_iff.mp hw
    cases hwait : t.wait with
    | join children => simp [hwait] at hw
    | reply m =>
      simp only [hwait, Option.some.injEq] at hw
      subst hw
      refine Scene.Before.trans ?_ (before_advance ..)
      exact .refl _
  | join id =>
    obtain ⟨t, -, hw⟩ := Option.bind_eq_some_iff.mp hw
    cases hwait : t.wait with
    | reply m => simp [hwait] at hw
    | join children =>
      simp only [hwait] at hw
      obtain ⟨e, -, rfl⟩ := Option.map_eq_some_iff.mp hw
      refine Scene.Before.trans ?_ (before_advance ..)
      exact .refl _

theorem Reachable.trans {w w' w'' : World σ κ μ ε ω} (hr : r.Reachable w w')
    (hr' : r.Reachable w' w'') : r.Reachable w w'' := by
  induction hr' with
  | refl => exact hr
  | step _ hp hw ih => exact ih.step hp hw

theorem Reachable.before {w w' : World σ κ μ ε ω} (hr : r.Reachable w w') :
    w.scene.Before w'.scene := by
  induction hr with
  | refl => exact .refl _
  | step _ _ hw ih => exact ih.trans (before_perform hw)

/-- A run in which every call that was started has the property. -/
theorem Reachable.provided {P : κ → Prop} {w w' : World σ κ μ ε ω} (hr : r.Reachable w w')
    (h : ∀ c ∈ w'.started, P c) : (r.provided fun _ c => P c).Reachable w w' := by
  induction hr with
  | refl => exact .refl
  | @step w' w'' move hr hp hw ih =>
    have hbefore := before_perform hw
    refine Reachable.step (ih fun c hc => h c (hbefore.started.subset hc)) ?_ hw
    cases move with
    | call c =>
      obtain rfl := Option.some.inj hw
      let started := { w' with started := w'.started ++ [c], nextId := w'.nextId + 1 }
      have hstarted := before_advance started w'.nextId c w'.state (r.body c)
      exact ⟨hp, h c (hstarted.started.subset (List.mem_append_right _ (by simp)))⟩
    | start id => exact hp
    | reply id e => exact hp
    | join id => exact hp

theorem Sound.reachable (hk : r.Keeps I) {w w' : World σ κ μ ε ω} (h : r.Sound I w)
    (hr : r.Reachable w w') : r.Sound I w' := by
  induction hr with
  | refl => exact h
  | step _ hp hw ih => exact ih.perform hk hp hw

/-- When answers do not matter to the invariant, the handlers need only preserve it. -/
theorem keeps_of_wp (hanswer : ∀ sc c e, I sc → I (sc.answer c e))
    (hcall : ∀ sc c, I sc → r.mayCall sc c →
      (r.body c).wp (r.wake c sc.state) I (fun _ => I) (fun _ => I) (sc.start c))
    (hstart : ∀ sc c pre post, sc.pending = pre ++ c :: post → I sc → r.mayStart sc c →
      (r.body c).wp (r.wake c sc.state) I (fun _ => I) (fun _ => I)
        ((sc.withPending (pre ++ post)).start c)) :
    r.Keeps I where
  call sc c hI hc := Co.wp_mono (fun _ sc h => hanswer sc c _ h) (fun _ sc h => hanswer sc c _ h)
    (hcall sc c hI hc)
  start sc c pre post hp hI hs := Co.wp_mono (fun _ sc h => hanswer sc c _ h)
    (fun _ sc h => hanswer sc c _ h) (hstart sc c pre post hp hI hs)

/-! ### Layers of invariants -/

/-- The same programs in an environment that acts only in scenes with `I`. -/
def given (r : Rules σ κ μ ε ω) (I : Scene σ κ μ ε ω → Prop) : Rules σ κ μ ε ω where
  body := r.body
  mayCall sc c := r.mayCall sc c ∧ I sc
  mayReply sc m e := r.mayReply sc m e ∧ I sc
  mayStart sc c := r.mayStart sc c ∧ I sc
  mayJoin c s sc := r.mayJoin c s sc ∧ I sc

/-- An invariant that is kept where another one holds is kept together with it. -/
theorem Keeps.and {J : Scene σ κ μ ε ω → Prop} (hI : r.Keeps I) (hJ : (r.given I).Keeps J) :
    r.Keeps fun sc => I sc ∧ J sc where
  call sc c h hc := Co.wp_and (hI.call sc c h.1 hc) (hJ.call sc c h.2 ⟨hc, h.1⟩)
  start sc c pre post hp h hs :=
    Co.wp_and (hI.start sc c pre post hp h.1 hs) (hJ.start sc c pre post hp h.2 ⟨hs, h.1⟩)

/-- An environment that does less in the scenes with `I`. -/
structure Within (r' r : Rules σ κ μ ε ω) (I : Scene σ κ μ ε ω → Prop) : Prop where
  body : r'.body = r.body
  call : ∀ sc c, I sc → r'.mayCall sc c → r.mayCall sc c
  reply : ∀ sc m e, I sc → r'.mayReply sc m e → r.mayReply sc m e
  start : ∀ sc c, I sc → r'.mayStart sc c → r.mayStart sc c
  join : ∀ c s sc, I sc → r'.mayJoin c s sc → r.mayJoin c s sc

theorem Keeps.within {r' : Rules σ κ μ ε ω} (hk : r.Keeps I) (h : r'.Within r I) : r'.Keeps I := by
  have hsafe : ∀ c s prog sc, r.Safe I c s prog sc → r'.Safe I c s prog sc := by
    intro c s prog sc hprog
    apply Co.wp_wake (r := r.wake c s) _ _ hprog
    · exact h.reply
    · exact h.join c s
  constructor
  · intro sc c hI hc
    rw [h.body]
    exact hsafe _ _ _ _ (hk.call sc c hI (h.call sc c hI hc))
  · intro sc c pre post hp hI hs
    rw [h.body]
    exact hsafe _ _ _ _ (hk.start sc c pre post hp hI (h.start sc c hI hs))

theorem Within.given {r' : Rules σ κ μ ε ω} {J : Scene σ κ μ ε ω → Prop} (h : r'.Within r I) :
    (r'.given I).Within (r.given I) J where
  body := h.body
  call sc c _ hc := ⟨h.call sc c hc.2 hc.1, hc.2⟩
  reply sc m e _ hr := ⟨h.reply sc m e hr.2 hr.1, hr.2⟩
  start sc c _ hs := ⟨h.start sc c hs.2 hs.1, hs.2⟩
  join c s sc _ hj := ⟨h.join c s sc hj.2 hj.1, hj.2⟩

/-- What the narrower environment reaches, the wider one does. -/
theorem Within.reachable {r' : Rules σ κ μ ε ω} (h : r'.Within r fun _ => True)
    {w w' : World σ κ μ ε ω} (hr : r'.Reachable w w') : r.Reachable w w' := by
  induction hr with
  | refl => exact .refl
  | @step w' w'' move _ hp hw ih =>
    refine ih.step ?_ (h.body ▸ hw)
    cases move with
    | call c => exact h.call _ c trivial hp
    | start id => exact fun p hmem hid => h.start _ p.2 trivial (hp p hmem hid)
    | reply id e => exact fun t hmem hid m hwait => h.reply _ m e trivial (hp t hmem hid m hwait)
    | join id => exact fun t hmem hid => h.join t.call t.since _ trivial (hp t hmem hid)

theorem within_given_mono (r : Rules σ κ μ ε ω) {J K : Scene σ κ μ ε ω → Prop}
    (h : ∀ sc, K sc → J sc) : (r.given K).Within (r.given J) I where
  body := rfl
  call sc _ _ hc := ⟨hc.1, h sc hc.2⟩
  reply sc _ _ _ hr := ⟨hr.1, h sc hr.2⟩
  start sc _ _ hs := ⟨hs.1, h sc hs.2⟩
  join _ _ sc _ hj := ⟨hj.1, h sc hj.2⟩

/-- An invariant that every handler keeps holds in every world reached from one
in which it holds and no handler is suspended. -/
theorem Keeps.reachable (hk : r.Keeps I) {w w' : World σ κ μ ε ω} (hw : I w.scene)
    (htasks : w.tasks = []) (hr : r.Reachable w w') : I w'.scene :=
  (Sound.reachable hk ⟨hw, by simp [TasksSafe, htasks]⟩ hr).scene

end Rules
end Base
