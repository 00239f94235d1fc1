import Fish.Fault

/-!
# Actions step by step

An action gives a value or faults, and leaves a state in both cases: `EStateM.Result.state`. The
lemmas here open a sequence of actions one action at a time, and carry facts about the state
through a whole sequence: `Action.Keeps view act` says that `act` leaves what `view` shows of the
state as it was, even if it faults halfway, `Action.Commutes change act` says that to `act` it
makes no difference whether `change` is made to the state before it or after it, and
`Action.Respects R exempt act` says that on states related by `R` the results of `act` are alike,
unless the first one is a fault that is exempt.

Main lemmas:

* `bind_of_ok`, `bind_of_error`   a sequence goes on after a value and ends at a fault
* `Keeps.bind`                    a sequence keeps what its actions keep
* `Keeps.on`                      work on a part of the state keeps every view that ignores the part
* `alike_bind`, `alike_on`        the same two of results that are alike
* `Respects.bind`, `Respects.on`  and of states that are related
* `Respects.commutes`             an action that respects a change does not see it
-/

/-- The state that an operation leaves, with a value or with an error. -/
def EStateM.Result.state {ε σ α : Type} : EStateM.Result ε σ α → σ
  | .ok _ s => s
  | .error _ s => s

/-- A value comes with the state that is left. -/
@[simp] theorem EStateM.Result.state_ok {ε σ α : Type} (a : α) (s : σ) :
    (EStateM.Result.ok a s : EStateM.Result ε σ α).state = s := rfl

/-- So does an error. -/
@[simp] theorem EStateM.Result.state_error {ε σ α : Type} (e : ε) (s : σ) :
    (EStateM.Result.error e s : EStateM.Result ε σ α).state = s := rfl

/-- The result with its state changed. -/
def EStateM.Result.mapState {ε σ α : Type} (change : σ → σ) :
    EStateM.Result ε σ α → EStateM.Result ε σ α
  | .ok a s => .ok a (change s)
  | .error e s => .error e (change s)

/-- Two results are alike: they are the same value or the same error, and their states are related.
    If the first one is an error that is exempt, then nothing is said of the second. -/
inductive EStateM.Result.Alike {ε σ τ α : Type} (R : σ → τ → Prop) (exempt : ε → Prop) :
    EStateM.Result ε σ α → EStateM.Result ε τ α → Prop
  | ok {a : α} {s : σ} {t : τ} : R s t → Alike R exempt (.ok a s) (.ok a t)
  | error {e : ε} {s : σ} {t : τ} : R s t → Alike R exempt (.error e s) (.error e t)
  | exempted {e : ε} {s : σ} {r : EStateM.Result ε τ α} :
    exempt e → Alike R exempt (.error e s) r

namespace EStateM.Result

variable {ε σ τ α : Type} {R S : σ → τ → Prop} {exempt : ε → Prop} {r : EStateM.Result ε σ α}
  {q : EStateM.Result ε τ α}

/-- A result is alike to itself. -/
theorem Alike.refl (r : EStateM.Result ε σ α) : r.Alike Eq exempt r := by
  cases r with
  | ok a s => exact .ok rfl
  | error e s => exact .error rfl

/-- The states of results that are alike may be known to be related in another way. -/
theorem Alike.imp (h : r.Alike R exempt q) (himp : R r.state q.state → S r.state q.state) :
    r.Alike S exempt q := by
  cases h with
  | ok hst => exact .ok (himp hst)
  | error hst => exact .error (himp hst)
  | exempted he => exact .exempted he

/-- Unless it is exempt, a result leaves a state that is related to that of the other. -/
theorem Alike.state (h : r.Alike R exempt q) (hnone : ∀ e s, r = .error e s → ¬exempt e) :
    R r.state q.state := by
  cases h with
  | ok hst => exact hst
  | error hst => exact hst
  | exempted he => exact absurd he (hnone _ _ rfl)

/-- If the state of the second result is a function of that of the first, then so is the result. -/
theorem Alike.eq_mapState {change : σ → σ} {r q : EStateM.Result ε σ α}
    (h : r.Alike (fun s t => t = change s) exempt q)
    (hnone : ∀ e s, r = .error e s → ¬exempt e) : q = r.mapState change := by
  cases h with
  | ok hst => rw [hst]; rfl
  | error hst => rw [hst]; rfl
  | exempted he => exact absurd he (hnone _ _ rfl)

end EStateM.Result

namespace Fish.Action

variable {σ τ α β γ : Type}

/-- After a value a sequence goes on with it. -/
theorem bind_of_ok {act : Action σ α} {next : α → Action σ β} {s t : σ} {a : α}
    (h : act s = .ok a t) : (act >>= next) s = next a t := by
  simp only [bind, EStateM.bind, h]

/-- After a fault it does not go on. -/
theorem bind_of_error {act : Action σ α} {next : α → Action σ β} {s t : σ} {fault : Fault}
    (h : act s = .error fault t) : (act >>= next) s = .error fault t := by
  simp only [bind, EStateM.bind, h]

/-- A sequence of actions as a case distinction on how the first one ends. -/
theorem bind_apply (act : Action σ α) (next : α → Action σ β) (s : σ) :
    (act >>= next) s =
      match act s with
      | .ok a t => next a t
      | .error fault t => .error fault t := by
  cases h : act s with
  | ok a t => exact bind_of_ok h
  | error fault t => exact bind_of_error h

/-- Without its value an action succeeds as it does with it. -/
theorem discard_of_ok {act : Action σ α} {s t : σ} {a : α} (h : act s = .ok a t) :
    discard act s = .ok () t := by
  simp only [discard, Functor.discard, Functor.mapConst, Function.comp, EStateM.map, h]

/-- Without its value an action faults as it does with it. -/
theorem discard_of_error {act : Action σ α} {s t : σ} {fault : Fault}
    (h : act s = .error fault t) : discard act s = .error fault t := by
  simp only [discard, Functor.discard, Functor.mapConst, Function.comp, EStateM.map, h]

/-- A value that is dropped does not hide a fault. -/
theorem error_of_discard {act : Action σ α} {s t : σ} {fault : Fault}
    (h : discard act s = .error fault t) : act s = .error fault t := by
  cases hact : act s with
  | ok a u =>
    rw [discard_of_ok hact] at h
    cases h
  | error fault u =>
    rw [discard_of_error hact] at h
    cases h
    rfl

/-- A change of the state before an action. -/
theorem modify_bind_apply (f : σ → σ) (next : Action σ β) (s : σ) :
    (modify f >>= fun _ => next) s = next (f s) := rfl

/-- A look at the state before an action. -/
theorem get_bind_apply (next : σ → Action σ β) (s : σ) : (get >>= next) s = next s s := rfl

/-! ## What an action leaves alone -/

/-- The action leaves what a view shows of the state as it was, also when it faults. -/
def Keeps (view : σ → γ) (act : Action σ α) : Prop := ∀ s, view (act s).state = view s

namespace Keeps

variable {view : σ → γ}

/-- A value that is at hand changes nothing. -/
theorem pure (a : α) : Keeps view (Pure.pure a : Action σ α) := fun _ => rfl

/-- A fault by itself changes nothing. -/
theorem throw (fault : Fault) : Keeps view (throw fault : Action σ α) := fun _ => rfl

/-- A change keeps a view that does not see it. -/
theorem modify {f : σ → σ} (h : ∀ s, view (f s) = view s) :
    Keeps view (modify f : Action σ Unit) := h

/-- A sequence keeps what its actions keep. -/
theorem bind {act : Action σ α} {next : α → Action σ β} (hact : Keeps view act)
    (hnext : ∀ a, Keeps view (next a)) : Keeps view (act >>= next) := by
  intro s
  have hs := hact s
  -- After a fault there is no second action to account for.
  cases h : act s with
  | ok a t =>
    rw [h] at hs
    rw [bind_of_ok h]
    exact (hnext a t).trans hs
  | error fault t =>
    rw [h] at hs
    rw [bind_of_error h]
    exact hs

/-- An action that first looks at the state keeps what it keeps whatever it has seen. -/
theorem get_bind {next : σ → Action σ β} (h : ∀ s, Keeps view (next s)) :
    Keeps view (get >>= next) :=
  bind (fun _ => rfl) h

/-- Work on a part of the state keeps every view that does not see the part. -/
theorem on {get : σ → τ} {set : τ → σ → σ} (h : ∀ s t, view (set t s) = view s)
    (act : Action τ α) : Keeps view (Action.on get set act) := by
  intro s
  simp only [Action.on]
  cases act (get s) with
  | ok a t => exact h s t
  | error fault t => exact h s t

end Keeps

/-! ## What an action does not see -/

/-- The action does not see a change of the state, nor undo it: on the changed state it does the
    same, and leaves the state that it leaves otherwise with the change made to it. -/
def Commutes (change : σ → σ) (act : Action σ α) : Prop :=
  ∀ s, act (change s) = (act s).mapState change

/-! ## What an action makes of related states -/

/-- On related states the action gives results that are alike, unless the fault is exempt. -/
def Respects (R : σ → σ → Prop) (exempt : Fault → Prop) (act : Action σ α) : Prop :=
  ∀ s t, R s t → (act s).Alike R exempt (act t)

/-- After like results a sequence goes on alike. -/
theorem alike_bind {R : σ → σ → Prop} {exempt : Fault → Prop} {act : Action σ α}
    {next : α → Action σ β} {s t : σ} (hact : (act s).Alike R exempt (act t))
    (hnext : ∀ a, Respects R exempt (next a)) :
    ((act >>= next) s).Alike R exempt ((act >>= next) t) := by
  rw [bind_apply, bind_apply]
  -- What matters of the first action are its two results, and these are alike in one of three ways.
  generalize act s = r at hact ⊢
  generalize act t = q at hact ⊢
  cases hact with
  | ok h => exact hnext _ _ _ h
  | error h => exact .error h
  | exempted he => exact .exempted he

/-- Work on a part of the state has like results if it has on the part alone, and what it leaves
    there makes related states. -/
theorem alike_on {R : σ → σ → Prop} {S : τ → τ → Prop} {exempt : Fault → Prop} {get : σ → τ}
    {set : τ → σ → σ} {act : Action τ α} {s t : σ}
    (hact : (act (get s)).Alike S exempt (act (get t)))
    (hset : ∀ a b, S a b → R (set a s) (set b t)) :
    (Action.on get set act s).Alike R exempt (Action.on get set act t) := by
  simp only [Action.on]
  -- The states are put back around what the action leaves of the part.
  generalize act (get s) = r at hact ⊢
  generalize act (get t) = q at hact ⊢
  cases hact with
  | ok h => exact .ok (hset _ _ h)
  | error h => exact .error (hset _ _ h)
  | exempted he => exact .exempted he

namespace Respects

variable {R : σ → σ → Prop} {exempt : Fault → Prop}

/-- A value that is at hand is the same on all states. -/
theorem pure (a : α) : Respects R exempt (Pure.pure a : Action σ α) := fun _ _ h => .ok h

/-- A change that takes related states to related states. -/
theorem modify {f : σ → σ} (h : ∀ s t, R s t → R (f s) (f t)) :
    Respects R exempt (modify f : Action σ Unit) := fun s t hst => .ok (h s t hst)

/-- A sequence respects what its actions respect. -/
theorem bind {act : Action σ α} {next : α → Action σ β} (hact : Respects R exempt act)
    (hnext : ∀ a, Respects R exempt (next a)) : Respects R exempt (act >>= next) :=
  fun s t hst => alike_bind (hact s t hst) hnext

/-- An action that first looks at the state, and sees the same in related states. -/
theorem get_bind {next : σ → Action σ β} (hlook : ∀ s t, R s t → next s = next t)
    (hnext : ∀ s, Respects R exempt (next s)) : Respects R exempt (get >>= next) := by
  intro s t hst
  rw [get_bind_apply, get_bind_apply, hlook s t hst]
  exact hnext t s t hst

/-- Work on a part of the state that is the same in related states. -/
theorem on {get : σ → τ} {set : τ → σ → σ} (hget : ∀ s t, R s t → get s = get t)
    (hset : ∀ s t a, R s t → R (set a s) (set a t)) (act : Action τ α) :
    Respects R exempt (Action.on get set act) := by
  intro s t hst
  have hact : (act (get s)).Alike Eq exempt (act (get t)) := hget s t hst ▸ .refl _
  apply alike_on hact
  rintro a _ rfl
  exact hset s t a hst

/-- An action that respects a change of the state, whatever the fault, does not see it. -/
theorem commutes {change : σ → σ} {act : Action σ α}
    (h : Respects (fun s t => t = change s) (fun _ => False) act) : Commutes change act :=
  fun s => (h s (change s) rfl).eq_mapState fun _ _ _ => id

end Respects

end Fish.Action
