import Fish.Machine.Execute

/-!
# Steps and runs

A step executes the cell that the pointer is at and moves the pointer on. A fault ends execution,
and so does a halt, after which every further step is refused without a change. On a grid without
cells there is nothing to execute, and the first step halts.

`Machine.runFor` takes a limited number of steps and `Machine.run` takes as many as there are. A
program need not end: `Machine.Ends` is the relation between a machine and the end that it comes to,
and the loop of `run` carries the proof that whatever it finds is that end.

Main lemma:

* `run_eq_some_iff`   a run has a result exactly if the machine comes to that end
-/

namespace Fish.Machine

/-- Takes the pointer one pace along its heading. -/
def pace (m : Machine) : Machine := { m with pointer := m.pointer.advance m.grid.bounds }

/-- Moves the pointer on. A machine that is leaping takes a second pace and is done with it. -/
def move (m : Machine) : Motion → Machine
  | .advance => if m.leaping then { m.pace with leaping := false }.pace else m.pace
  | .stay => m

/-- Executes the cell that the pointer is at and counts it; without a cell the machine halts. -/
def executeNext : Action Machine Motion := do
  match (← get).cell? with
  | some cell =>
    -- The cell counts before it is executed, so one that faults counts as well.
    modify fun m => { m with steps := m.steps + 1 }
    execute cell
  | none =>
    halt
    return .stay

/-- Takes one step, if the machine is running, and tells the status after it. A fault becomes the
    status. -/
def step : Action Machine Status := fun m =>
  match m.status with
  | .running =>
    match executeNext m with
    | .ok motion m => .ok (m.move motion).status (m.move motion)
    | .error fault m => .error fault { m with status := .faulted fault.kind }
  | status => .ok status m

/-- Takes at most the given number of steps, and tells the status after them. -/
def runFor : Nat → Action Machine Status
  | 0 => fun m => .ok m.status m
  | n + 1 => fun m =>
    match m.status with
    | .running =>
      match step m with
      | .ok _ m => runFor n m
      | .error fault m => .error fault m
    | status => .ok status m

/-! ## Running to the end -/

/-- The machine comes to an end, with the given result: the steps from it reach a machine that is
    not running, or a fault. -/
inductive Ends : Machine → EStateM.Result Fault Machine Unit → Prop
  | ended {m : Machine} : m.status ≠ .running → Ends m (.ok () m)
  | faulted {m n : Machine} {fault : Fault} :
    m.status = .running → step m = .error fault n → Ends m (.error fault n)
  | stepped {m n : Machine} {status : Status} {r : EStateM.Result Fault Machine Unit} :
    m.status = .running → step m = .ok status n → Ends n r → Ends m r

/-- A machine whose ends are ends of the given one, as every machine that it reaches is. -/
abbrev Reached (m : Machine) := { n : Machine // ∀ r, Ends n r → Ends m r }

/-- Takes one step from a machine that was reached, or gives the end if there is none to take. -/
def goOn (m : Machine) (n : Reached m) : Id (Reached m ⊕ Option { r // Ends m r }) :=
  -- Each branch builds its value together with the proof that it is an end of the first machine.
  if hs : n.val.status = .running then
    match ht : step n.val with
    | .ok _ next => .inl ⟨next, fun r h => n.property r (.stepped hs ht h)⟩
    | .error fault last => .inr (some ⟨.error fault last, n.property _ (.faulted hs ht)⟩)
  else .inr (some ⟨.ok () n.val, n.property _ (.ended hs)⟩)

/-- Takes steps as long as the machine is running. A program need not end; then there is no result
    to find, and the value is `none`. -/
def run (m : Machine) : Option (EStateM.Result Fault Machine Unit) :=
  (Id.run (repeatM (goOn m) ⟨m, fun _ h => h⟩)).map Subtype.val

/-- A machine that is not running is the end itself. -/
theorem goOn_ended {m : Machine} {n : Reached m} (hs : n.val.status ≠ .running) :
    goOn m n = .inr (some ⟨.ok () n.val, n.property _ (.ended hs)⟩) := by
  simp [goOn, hs]

/-- A step that faults is the end. -/
theorem goOn_faulted {m last : Machine} {n : Reached m} {fault : Fault}
    (hs : n.val.status = .running) (ht : step n.val = .error fault last) :
    goOn m n = .inr (some ⟨.error fault last, n.property _ (.faulted hs ht)⟩) := by
  rw [goOn, dif_pos hs]
  split <;> rename_i heq <;> cases heq.symm.trans ht
  rfl

/-- After any other step the loop goes on with the machine that the step leaves. -/
theorem goOn_stepped {m next : Machine} {n : Reached m} {status : Status}
    (hs : n.val.status = .running) (ht : step n.val = .ok status next) :
    goOn m n = .inl ⟨next, fun r h => n.property r (.stepped hs ht h)⟩ := by
  rw [goOn, dif_pos hs]
  split <;> rename_i heq <;> cases heq.symm.trans ht
  rfl

/-- Going on from a machine that comes to an end finds that end. -/
theorem repeatM_goOn {m n : Machine} {r : EStateM.Result Fault Machine Unit} (h : Ends n r)
    (hn : ∀ r, Ends n r → Ends m r) : Id.run (repeatM (goOn m) ⟨n, hn⟩) = some ⟨r, hn r h⟩ := by
  -- The induction is on the way to the end: every step of it is one round of the loop.
  induction h with
  | ended hs =>
    rw [repeatM_eq_of_monadTail]
    simp only [repeatM.body, goOn_ended (n := ⟨_, hn⟩) hs]
    rfl
  | faulted hs ht =>
    rw [repeatM_eq_of_monadTail]
    simp only [repeatM.body, goOn_faulted (n := ⟨_, hn⟩) hs ht]
    rfl
  | stepped hs ht h ih =>
    rw [repeatM_eq_of_monadTail]
    simp only [repeatM.body, goOn_stepped (n := ⟨_, hn⟩) hs ht]
    exact ih fun r h => hn r (.stepped hs ht h)

/-- A run has the end of the machine as its result, and none if the machine comes to no end. -/
theorem run_eq_some_iff {m : Machine} {r : EStateM.Result Fault Machine Unit} :
    m.run = some r ↔ Ends m r := by
  constructor
  · -- What the loop finds carries the proof that it is the end.
    intro h
    obtain ⟨s, -, rfl⟩ := Option.map_eq_some_iff.1 h
    exact s.property
  · intro h
    rw [run, repeatM_goOn h]
    rfl

/-- The next step would fault for want of input. -/
def awaitsInput (m : Machine) : Bool :=
  m.status = .running && !m.quoting && m.cell?.map (·.instruction) = some .readNumber
    && m.input.isExhausted

/-- Gives the machine more input. -/
def feed (m : Machine) (bytes : List UInt8) : Machine := { m with input := m.input.append bytes }

end Fish.Machine
