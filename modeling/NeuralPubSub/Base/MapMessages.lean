-- SUMMARY: Coroutines that differ in the messages they send only, and the runs that they have in common.
import NeuralPubSub.Base.Coroutine

/-!
# Other messages

`Co.mapMessages` sends another message wherever a program sends one. As the reply
does not depend on the message, the two programs go through the same states, and
the runs of the one are the runs of the other with the messages exchanged
(`Rules.reachable_mapMessages_iff`).
-/

namespace Base

variable {σ κ μ μ' ε ω α β : Type}

/-! ## Programs -/

namespace Co

def mapMessages (f : μ → μ') : Co σ κ μ ε α → Co σ κ μ' ε α
  | ret a => ret a
  | raise e => raise e
  | get k => get fun s => (k s).mapMessages f
  | set s k => set s (k.mapMessages f)
  | send m k => send (f m) fun r => (k r).mapMessages f
  | gather calls k => gather calls fun r => (k r).mapMessages f

def Stop.mapMessages (f : μ → μ') : Stop σ κ μ ε α → Stop σ κ μ' ε α
  | ret a => ret a
  | raise e => raise e
  | send m k => send (f m) fun r => (k r).mapMessages f
  | gather calls k => gather calls fun r => (k r).mapMessages f

section Programs

variable (f : μ → μ')

@[simp] theorem mapMessages_pure (a : α) :
    (pure a : Co σ κ μ ε α).mapMessages f = pure a := rfl

@[simp] theorem mapMessages_raise (e : ε) :
    (raise e : Co σ κ μ ε α).mapMessages f = raise e := rfl

@[simp] theorem mapMessages_read (g : σ → α) :
    (read g : Co σ κ μ ε α).mapMessages f = read g := rfl

@[simp] theorem mapMessages_modify (g : σ → σ) :
    (modify g : Co σ κ μ ε Unit).mapMessages f = modify g := rfl

@[simp] theorem mapMessages_update (g : σ → α × σ) :
    (update g : Co σ κ μ ε α).mapMessages f = update g := rfl

@[simp] theorem mapMessages_ofExcept (x : Except ε α) :
    (ofExcept x : Co σ κ μ ε α).mapMessages f = ofExcept x := by
  cases x <;> rfl

@[simp] theorem mapMessages_request (m : μ) :
    (request m : Co σ κ μ ε (Except ε Unit)).mapMessages f = request (f m) := rfl

@[simp] theorem mapMessages_gatherAll (calls : List κ) :
    (gatherAll calls : Co σ κ μ ε Unit).mapMessages f = gatherAll calls := by
  show gather calls _ = gather calls _
  congr 1
  funext r
  exact mapMessages_ofExcept f r

@[simp] theorem mapMessages_bind (c : Co σ κ μ ε α) (k : α → Co σ κ μ ε β) :
    (c >>= k).mapMessages f = c.mapMessages f >>= fun a => (k a).mapMessages f := by
  induction c with
  | ret a => rfl
  | raise e => rfl
  | get g ih => exact congrArg get (funext ih)
  | set s c ih => exact congrArg (set s) ih
  | send m g ih => exact congrArg (send (f m)) (funext ih)
  | gather calls g ih => exact congrArg (gather calls) (funext ih)

@[simp] theorem mapMessages_ite (p : Prop) [Decidable p] (c c' : Co σ κ μ ε α) :
    (if p then c else c').mapMessages f = if p then c.mapMessages f else c'.mapMessages f := by
  split <;> rfl

theorem mapMessages_forEach (l : List β) (g : β → Co σ κ μ ε Unit) :
    (forEach l g).mapMessages f = forEach l fun x => (g x).mapMessages f := by
  induction l with
  | nil => rfl
  | cons x l ih => rw [forEach_cons, forEach_cons, mapMessages_bind, ih]

theorem segment_mapMessages (c : Co σ κ μ ε α) (s : σ) :
    (c.mapMessages f).segment s = ((c.segment s).1, (c.segment s).2.mapMessages f) := by
  induction c generalizing s with
  | ret a | raise e | send m k | gather calls k => rfl
  | get k ih => exact ih s s
  | set s' c ih => exact ih s'

end Programs
end Co

/-! ## Worlds -/

def Scene.mapMessages (f : μ → μ') (sc : Scene σ κ μ ε ω) : Scene σ κ μ' ε ω where
  state := sc.state
  pending := sc.pending
  started := sc.started
  sent := sc.sent.map f
  answered := sc.answered

def Wait.mapMessages (f : μ → μ') : Wait μ → Wait μ'
  | .reply m => .reply (f m)
  | .join children => .join children

def Task.mapMessages (f : μ → μ') (t : Task σ κ μ ε ω) : Task σ κ μ' ε ω where
  id := t.id
  call := t.call
  since := t.since
  wait := t.wait.mapMessages f
  resume r := (t.resume r).mapMessages f

namespace World

/-- The world in which every message was the other one. -/
def mapMessages (f : μ → μ') (w : World σ κ μ ε ω) : World σ κ μ' ε ω where
  state := w.state
  pending := w.pending
  tasks := w.tasks.map (·.mapMessages f)
  started := w.started
  sent := w.sent.map f
  finished := w.finished
  nextId := w.nextId

variable (f : μ → μ')

theorem advance_mapMessages (w : World σ κ μ ε ω) (id : ℕ) (call : κ) (since : σ)
    (c : Co σ κ μ ε ω) : (w.mapMessages f).advance id call since (c.mapMessages f) =
      (w.advance id call since c).mapMessages f := by
  have hstate : (w.mapMessages f).state = w.state := rfl
  unfold advance
  rw [Co.segment_mapMessages, hstate]
  rcases c.segment w.state with ⟨s, a | e | ⟨m, k⟩ | ⟨calls, k⟩⟩
  · rfl
  · rfl
  · simp [mapMessages, Co.Stop.mapMessages, Task.mapMessages, Wait.mapMessages]
  · simp [mapMessages, Co.Stop.mapMessages, Task.mapMessages, Wait.mapMessages]

/-- A task goes on in both worlds alike. -/
theorem withoutTask_mapMessages (w : World σ κ μ ε ω) (id : ℕ) :
    { w.mapMessages f with tasks := (w.mapMessages f).tasks.eraseP (·.id = id) } =
      ({ w with tasks := w.tasks.eraseP (·.id = id) } : World σ κ μ ε ω).mapMessages f := by
  have hrest : (w.mapMessages f).tasks.eraseP (·.id = id) =
      (w.tasks.eraseP (·.id = id)).map (·.mapMessages f) := List.eraseP_map
  rw [hrest]
  rfl

theorem perform_mapMessages {body : κ → Co σ κ μ ε ω} {body' : κ → Co σ κ μ' ε ω}
    (hbody : ∀ c, body' c = (body c).mapMessages f) (w : World σ κ μ ε ω) (move : Move κ ε) :
    (w.mapMessages f).perform body' move = (w.perform body move).map (mapMessages f) := by
  have htask : ∀ id, (w.mapMessages f).tasks.find? (·.id = id) =
      (w.tasks.find? (·.id = id)).map (·.mapMessages f) := fun id => List.find?_map
  cases move with
  | call c =>
    rw [perform, perform, hbody]
    exact congrArg some (advance_mapMessages f
      { w with started := w.started ++ [c], nextId := w.nextId + 1 } w.nextId c w.state (body c))
  | start id =>
    rw [perform, perform, show (w.mapMessages f).pending = w.pending from rfl, Option.map_map]
    congr 1
    funext p
    rw [hbody]
    exact advance_mapMessages f
      { w with pending := w.pending.eraseP (·.1 = id), started := w.started ++ [p.2] } id p.2 w.state
      (body p.2)
  | reply id r =>
    rw [perform, perform, htask, withoutTask_mapMessages, Option.bind_map, Option.map_bind]
    congr 1
    funext t
    cases hwait : t.wait with
    | reply m =>
      simp only [Function.comp_apply, Task.mapMessages, Wait.mapMessages, hwait]
      exact congrArg some (advance_mapMessages f
        { w with tasks := w.tasks.eraseP (·.id = id) } id t.call t.since (t.resume r))
    | join children =>
      simp only [Function.comp_apply, Task.mapMessages, Wait.mapMessages, hwait]
      rfl
  | join id =>
    rw [perform, perform, htask, withoutTask_mapMessages, Option.bind_map, Option.map_bind]
    congr 1
    funext t
    cases hwait : t.wait with
    | reply m =>
      simp only [Function.comp_apply, Task.mapMessages, Wait.mapMessages, hwait]
      rfl
    | join children =>
      simp only [Function.comp_apply, Task.mapMessages, Wait.mapMessages, hwait, Option.map_map]
      rw [show (w.mapMessages f).joined children = w.joined children from rfl]
      congr 1
      funext r
      exact advance_mapMessages f { w with tasks := w.tasks.eraseP (·.id = id) } id t.call t.since
        (t.resume r)

end World

/-! ## Runs -/

namespace Rules

/-- The rules are the same but for the messages. -/
structure SameBut (f : μ → μ') (r : Rules σ κ μ ε ω) (r' : Rules σ κ μ' ε ω) : Prop where
  body : ∀ c, r'.body c = (r.body c).mapMessages f
  mayCall : ∀ sc c, r'.mayCall (sc.mapMessages f) c ↔ r.mayCall sc c
  mayReply : ∀ sc m e, r'.mayReply (sc.mapMessages f) (f m) e ↔ r.mayReply sc m e
  mayStart : ∀ sc c, r'.mayStart (sc.mapMessages f) c ↔ r.mayStart sc c
  mayJoin : ∀ c s sc, r'.mayJoin c s (sc.mapMessages f) ↔ r.mayJoin c s sc

variable {f : μ → μ'} {r : Rules σ κ μ ε ω} {r' : Rules σ κ μ' ε ω}

theorem SameBut.permits_iff (h : SameBut f r r') (w : World σ κ μ ε ω) (move : Move κ ε) :
    r'.Permits (w.mapMessages f) move ↔ r.Permits w move := by
  cases move with
  | call c => exact h.mayCall w.scene c
  | start id => exact forall₂_congr fun p _ => imp_congr_right fun _ => h.mayStart w.scene p.2
  | reply id e =>
    show (∀ t ∈ w.tasks.map (·.mapMessages f), _) ↔ _
    rw [List.forall_mem_map]
    refine forall₂_congr fun t _ => imp_congr_right fun _ => ?_
    rcases t with ⟨id', call, since, m | children, resume⟩
    · have hreply : r'.mayReply (w.mapMessages f).scene (f m) e ↔ r.mayReply w.scene m e :=
        h.mayReply w.scene m e
      simpa [Task.mapMessages, Wait.mapMessages] using hreply
    · simp [Task.mapMessages, Wait.mapMessages]
  | join id =>
    show (∀ t ∈ w.tasks.map (·.mapMessages f), _) ↔ _
    rw [List.forall_mem_map]
    exact forall₂_congr fun t _ => imp_congr_right fun _ => h.mayJoin t.call t.since w.scene

/-- The runs of the one rules are the runs of the other with the messages exchanged. -/
theorem SameBut.reachable_iff (h : SameBut f r r') (w : World σ κ μ ε ω) (v : World σ κ μ' ε ω) :
    r'.Reachable (w.mapMessages f) v ↔ ∃ w', r.Reachable w w' ∧ v = w'.mapMessages f := by
  constructor
  · intro hv
    induction hv with
    | refl => exact ⟨w, .refl, rfl⟩
    | step _ hpermits hperform ih =>
      obtain ⟨w', hw', rfl⟩ := ih
      rw [World.perform_mapMessages f h.body, Option.map_eq_some_iff] at hperform
      obtain ⟨w'', hw'', rfl⟩ := hperform
      exact ⟨w'', hw'.step ((h.permits_iff w' _).mp hpermits) hw'', rfl⟩
  · rintro ⟨w', hw', rfl⟩
    induction hw' with
    | refl => exact .refl
    | step _ hpermits hperform ih =>
      refine ih.step ((h.permits_iff _ _).mpr hpermits) ?_
      rw [World.perform_mapMessages f h.body, hperform]
      rfl

end Rules
end Base
