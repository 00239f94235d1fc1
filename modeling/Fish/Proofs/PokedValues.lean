import Fish.Proofs.FaultConditions
import Fish.Proofs.Soundness

/-!
# Values put over the plane

A poke puts a value at a point of the plane, and a peek finds there what the last poke has put, or
else the character of the cell, or else, outside the grid, zero. `Machine.poked?` is what the next
step puts and where, if it executes a poke, and `Machine.pokes` lists what a number of steps have
put, in order; the value at a point is that of the last entry for the point. Nothing but a poke
changes what there is to be seen, and a poke changes no cell.

Main lemmas:

* `Binary64.toCoordinate_eq`   the coordinate of a value is its whole part, within a word
* `scratch_next`               what a step puts is all that it changes over the plane
* `find?_after`                so the last poke at a point is what is found there
* `seen_look`                  a program sees a value in one of three ways
* `peek_reads_last_poke`       all of it about one run
-/

namespace Fish

/-- The coordinate that a value stands for: the quotient by the unit, cut off toward zero, or the
    end of the range that it is beyond. A value that is not a number stands for zero. -/
theorem Binary64.toCoordinate_eq (value : Binary64) :
    value.toCoordinate =
      match value with
      | nan => 0
      | infinite negative => if negative then -0x8000000000000000 else 0x7fffffffffffffff
      | finite negative units _ =>
        max (-0x8000000000000000) (min 0x7fffffffffffffff
          ((if negative then -(units : Int) else units).tdiv unitsPerOne)) := by
  cases value with
  | nan => rfl
  | infinite negative => rfl
  | finite negative units h =>
    unfold toCoordinate toIntWithin
    -- The whole part is that of the magnitude, with the sign put back.
    cases negative with
    | false =>
      simp only [Bool.false_eq_true, if_false]
      rw [Int.ofNat_tdiv]
    | true =>
      simp only [if_true]
      rw [Int.neg_tdiv, Int.ofNat_tdiv]

/-- What a program sees at a point, given what was put over the plane, the last at the end: the
    value that was put there last; or else the code point of the cell at the point, if it is in the
    grid; or else zero. -/
inductive Seen (g : Grid) (pokes : List (Point × Binary64)) (p : Point) : Binary64 → Prop
  | poked {value : Binary64} : pokes.reverse.lookup p = some value → Seen g pokes p value
  | cell {cell : Cell} :
    pokes.reverse.lookup p = none → p.Inside g.bounds →
    g.rows[p.y.toNat]?.bind (·[p.x.toNat]?) = some cell → Seen g pokes p (.ofNat cell.glyph.toNat)
  | outside :
    pokes.reverse.lookup p = none → ¬p.Inside g.bounds → Seen g pokes p (.ofNat 0)

/-- Only a poke puts something over the plane. -/
theorem Instruction.eq_poke_of_scratch {i : Instruction} (h : Part.scratch ∈ i.writes) :
    i = .poke := by
  cases i with
  | poke => rfl
  | mirror mirror => cases mirror <;> simp [writes] at h
  | stack command => cases command <;> simp [writes] at h
  | _ => simp [writes] at h

namespace Machine

variable {m n : Machine} {cell : Cell} {x y value : Binary64} {rest : List Binary64} {p : Point}

/-! ## One poke -/

/-- What the next step puts over the plane, and where. -/
def poked? (m : Machine) : Option (Point × Binary64) :=
  match m.status, m.quoting, m.cell?.map (·.instruction), m.stack.values with
  | .running, false, some Instruction.poke, y :: x :: value :: _ =>
    some (⟨x.toCoordinate, y.toCoordinate⟩, value)
  | _, _, _, _ => none

/-- A step puts a value if it executes a poke, outside quotes, on a stack with a point and a
    value. -/
theorem poked?_eq_some_iff :
    m.poked? = some (p, value) ↔
      m.status = .running ∧ m.quoting = false ∧
        ∃ cell y x rest, m.cell? = some cell ∧ cell.instruction = .poke ∧
          m.stack.values = y :: x :: value :: rest ∧ p = ⟨x.toCoordinate, y.toCoordinate⟩ := by
  constructor
  · intro h
    unfold poked? at h
    split at h
    · rename_i y x value rest hrun hq hi hvalues
      cases h
      obtain ⟨cell, hc, hi⟩ := Option.map_eq_some_iff.1 hi
      exact ⟨hrun, hq, cell, y, x, rest, hc, hi, hvalues, rfl⟩
    · cases h
  · rintro ⟨hrun, hq, cell, y, x, rest, hc, hi, hvalues, rfl⟩
    simp only [poked?, hrun, hq, hc, hi, hvalues, Option.map_some]

/-- The cell is obeyed, and puts the value at the point. -/
theorem executeNext_of_poke (hq : m.quoting = false) (hc : m.cell? = some cell)
    (hi : cell.instruction = .poke) (hvalues : m.stack.values = y :: x :: value :: rest) :
    executeNext m = .ok .advance { m.counted.withValues rest with
      scratch := m.scratch.insert ⟨x.toCoordinate, y.toCoordinate⟩ value } := by
  rw [executeNext_of_obeying hc (.inl hq), obey, hi]
  simp only [thenAdvance_apply, poke_apply, stack_counted, hvalues]
  rfl

/-- A poke with a point and a value puts the value there. -/
theorem scratch_next_of_poke (hrun : m.status = .running) (hq : m.quoting = false)
    (hc : m.cell? = some cell) (hi : cell.instruction = .poke)
    (hvalues : m.stack.values = y :: x :: value :: rest) :
    m.next.scratch = m.scratch.insert ⟨x.toCoordinate, y.toCoordinate⟩ value := by
  rw [next_of_step_ok (step_of_ok hrun (executeNext_of_poke hq hc hi hvalues))]
  exact move_keeps (p := .scratch) nofun nofun _ .advance

/-- A poke that lacks a value faults. -/
theorem step_of_short_poke (hrun : m.status = .running) (hq : m.quoting = false)
    (hc : m.cell? = some cell) (hi : cell.instruction = .poke)
    (hvalues : ∀ y x value rest, m.stack.values = y :: x :: value :: rest → False) :
    ∃ fault n, m.step = .error fault n := by
  have hfew : m.stack.size < cell.instruction.valuesNeeded m.stack := by
    rw [hi]
    exact Stack.size_lt_three hvalues
  exact ⟨_, _, step_error_of_faults hrun hc (.inl hq) (.tooFew hfew)⟩

/-- A step that puts no value leaves what is over the plane as it was. -/
theorem scratch_next_of_none (h : m.poked? = none) : m.next.scratch = m.scratch := by
  by_cases hrun : m.status = .running
  · cases hstep : m.step with
    | error fault n =>
      rw [next_of_step_error hstep]
      exact step_error_keeps (p := .scratch) hstep nofun nofun nofun nofun
    | ok status n =>
      refine next_keeps (p := .scratch) (fun cell hc hwrites => ?_) nofun nofun nofun nofun
      -- The cell would be a poke that succeeds, and so one that puts a value.
      obtain ⟨hobey, hwrites⟩ := obeying_of_mem_writes hwrites nofun
      have hi := Instruction.eq_poke_of_scratch hwrites
      have hq : m.quoting = false := hobey.resolve_right (by rw [hi]; nofun)
      -- With three values the step would have put one, and with fewer it would have faulted.
      match hvalues : m.stack.values with
      | y :: x :: value :: rest =>
        simp only [poked?, hrun, hq, hc, hi, hvalues, Option.map_some] at h
        cases h
      | [] | [_] | [_, _] =>
        have hshort : ∀ y x value rest, m.stack.values = y :: x :: value :: rest → False := by
          intro y x value rest hlong
          rw [hvalues] at hlong
          cases hlong
        obtain ⟨fault, t, herror⟩ := step_of_short_poke hrun hq hc hi hshort
        rw [hstep] at herror
        cases herror
  · rw [next_of_not_running hrun]

/-- What a step puts is all that it changes over the plane. -/
theorem scratch_next (m : Machine) :
    m.next.scratch =
      match m.poked? with
      | some (p, value) => m.scratch.insert p value
      | none => m.scratch := by
  cases h : m.poked? with
  | none => exact scratch_next_of_none h
  | some poke =>
    obtain ⟨p, value⟩ := poke
    obtain ⟨hrun, hq, cell, y, x, rest, hc, hi, hvalues, rfl⟩ := poked?_eq_some_iff.1 h
    exact scratch_next_of_poke hrun hq hc hi hvalues

/-! ## Many pokes -/

/-- What a number of steps put over the plane, in order. -/
def pokes (m : Machine) (k : Nat) : List (Point × Binary64) := m.events poked? k

/-- What is found at a point after a number of steps was put there by the last poke at the point, or
    was there before. -/
theorem find?_after (m : Machine) (k : Nat) (p : Point) :
    (m.after k).scratch.find? p = ((m.pokes k).reverse.lookup p).or (m.scratch.find? p) := by
  -- By induction on the steps, the last one taken off.
  induction k with
  | zero => rfl
  | succ k ih =>
    rw [after_succ, scratch_next, pokes, events_succ, List.reverse_append, List.lookup_append]
    cases (m.after k).poked? with
    | none => simpa [pokes] using ih
    | some poke =>
      obtain ⟨q, value⟩ := poke
      -- The last poke hides those before it at its point, and no others.
      by_cases hq : p = q
      · subst hq
        simp [Scratch.find?_insert_self]
      · have hne : (p == q) = false := by simpa using hq
        rw [Scratch.find?_insert_of_ne _ _ hq, ih]
        simp [List.lookup_cons, hne, pokes]

/-! ## What there is to be seen -/

/-- Two machines on one grid that find the same at a point see the same there. -/
theorem look_eq (hgrid : n.grid = m.grid) (hfind : n.scratch.find? p = m.scratch.find? p) :
    n.look p = m.look p := by
  unfold look
  rw [hgrid, hfind]

/-- A program that has begun with nothing over the plane sees in one of three ways. -/
theorem seen_look {s : Machine} (hempty : s.scratch = {}) (k : Nat) (p : Point) :
    Seen s.grid (s.pokes k) p ((s.after k).look p) := by
  have hfind := find?_after s k p
  rw [hempty] at hfind
  unfold look
  rw [hfind, grid_after]
  -- The last value that was put at the point, or else the cell there, or else nothing.
  cases hlast : (s.pokes k).reverse.lookup p with
  | some value => exact .poked hlast
  | none =>
    simp only [Option.none_or]
    show Seen _ _ _ (if p.Inside s.grid.bounds then _ else _)
    split
    · rename_i hinside
      obtain ⟨cell, hcell⟩ := Option.isSome_iff_exists.1 (Grid.cell?_isSome hinside)
      rw [hcell]
      exact .cell hlast hinside hcell
    · rename_i hinside
      exact .outside hlast hinside

/-- A step that puts no value at a point changes nothing of what is seen there. -/
theorem look_next (h : ∀ value, m.poked? ≠ some (p, value)) : m.next.look p = m.look p := by
  refine look_eq (grid_next m) ?_
  rw [scratch_next]
  -- A value that is put elsewhere does not hide what is here.
  cases hpoke : m.poked? with
  | none => rfl
  | some poke =>
    obtain ⟨q, value⟩ := poke
    have hne : p ≠ q := by
      rintro rfl
      exact h value hpoke
    exact Scratch.find?_insert_of_ne _ value hne

/-- The cell is obeyed, and pushes what is seen at the point. -/
theorem executeNext_of_peek (hq : m.quoting = false) (hc : m.cell? = some cell)
    (hi : cell.instruction = .peek) (hvalues : m.stack.values = y :: x :: rest) :
    executeNext m = .ok .advance
      (m.counted.withValues (m.look ⟨x.toCoordinate, y.toCoordinate⟩ :: rest)) := by
  rw [executeNext_of_obeying hc (.inl hq), obey, hi]
  simp only [thenAdvance_apply, peek_apply, stack_counted, hvalues]
  rfl

/-- A peek with a point pushes what is seen there. -/
theorem step_of_peek (hrun : m.status = .running) (hq : m.quoting = false)
    (hc : m.cell? = some cell) (hi : cell.instruction = .peek)
    (hvalues : m.stack.values = y :: x :: rest) :
    m.step = .ok .running m.next ∧
      m.next.stack.values = m.look ⟨x.toCoordinate, y.toCoordinate⟩ :: rest := by
  have hstep := step_of_ok hrun (executeNext_of_peek hq hc hi hvalues)
  have hstatus : m.next.status = .running := by
    rw [next_of_step_ok hstep, status_move]
    exact hrun
  refine ⟨step_of_next_running hstatus, ?_⟩
  rw [next_of_step_ok hstep]
  exact congrArg Stack.values (move_keeps (p := .active) nofun nofun _ .advance)

/-! ## Peeks and pokes of a run -/

/-- A machine that has taken any number of steps since its start executes a peek outside quotes,
    with a point on the stack, by pushing what is seen at the point: the value of the last poke
    there among those of the steps; or if there was none the code point of the cell at the point,
    if that is in the grid as it stands; or else zero. A step is a poke if, outside quotes, it
    executes that instruction with a point and a value on the stack, and the coordinates of the
    point are whole parts within a word, or zero for what is not a number. A step that is no poke at
    a point changes nothing of what is seen there, and the cells that are executed are always those
    of the grid. -/
theorem peek_reads_last_poke (g : Grid) (values : List Binary64) (seed : UInt64) (input : Input)
    (output : Output) (k : Nat) :
    let s := start g values seed input output
    let m := s.after k
    (∀ cell y x rest, m.status = .running → m.quoting = false → m.cell? = some cell →
      cell.instruction = .peek → m.stack.values = y :: x :: rest →
      ∃ value, Seen g (s.pokes k) ⟨x.toCoordinate, y.toCoordinate⟩ value ∧
        m.step = .ok .running m.next ∧ m.next.stack.values = value :: rest) ∧
    (∀ p value, m.poked? = some (p, value) ↔
      m.status = .running ∧ m.quoting = false ∧
        ∃ cell y x rest, m.cell? = some cell ∧ cell.instruction = .poke ∧
          m.stack.values = y :: x :: value :: rest ∧ p = ⟨x.toCoordinate, y.toCoordinate⟩) ∧
    (∀ value : Binary64, value.toCoordinate =
      match value with
      | .nan => 0
      | .infinite negative => if negative then -0x8000000000000000 else 0x7fffffffffffffff
      | .finite negative units _ =>
        max (-0x8000000000000000) (min 0x7fffffffffffffff
          ((if negative then -(units : Int) else units).tdiv Binary64.unitsPerOne))) ∧
    (∀ p, (∀ value, m.poked? ≠ some (p, value)) → m.next.look p = m.look p) ∧
    m.grid = g ∧ m.cell? = g.lookup m.pointer.position := by
  intro s m
  refine ⟨fun cell y x rest hrun hq hc hi hvalues => ?_, fun p value => poked?_eq_some_iff,
    Binary64.toCoordinate_eq, fun p => look_next, grid_after s k, ?_⟩
  · obtain ⟨hstep, hpushed⟩ := step_of_peek hrun hq hc hi hvalues
    exact ⟨_, seen_look (s := s) rfl k _, hstep, hpushed⟩
  · rw [cell?, grid_after]
    rfl

/-- A value that is put at infinity, in the row that is not a number, and is found there in the row
    zero. -/
theorem peek_reads_last_poke_at_infinity :
    let s := start (.ofRows [[.ofChar 'p', .ofChar 'g']])
      [.infinite false, .ofNat 0, .ofNat 7, .infinite false, .nan] 0 {} {}
    let m := s.after 1
    m.status = .running ∧ m.quoting = false ∧ m.cell? = some (.ofChar 'g') ∧
      m.stack.values = [.ofNat 0, .infinite false] ∧ m.next.stack.values = [.ofNat 7] := by
  intro s m
  have hrun : m.status = .running := by decide +kernel
  have hq : m.quoting = false := by decide +kernel
  have hc : m.cell? = some (.ofChar 'g') := by decide +kernel
  have hvalues : m.stack.values = [.ofNat 0, .infinite false] := by decide +kernel
  obtain ⟨hpeek, -⟩ := peek_reads_last_poke (.ofRows [[.ofChar 'p', .ofChar 'g']])
    [.infinite false, .ofNat 0, .ofNat 7, .infinite false, .nan] 0 {} {} 1
  obtain ⟨value, hseen, -, hpushed⟩ := hpeek _ _ _ _ hrun hq hc rfl hvalues
  have hlast : (s.pokes 1).reverse.lookup
      ⟨(Binary64.infinite false).toCoordinate, (Binary64.ofNat 0).toCoordinate⟩ =
        some (.ofNat 7) := by
    decide +kernel
  have hvalue : value = .ofNat 7 := by
    cases hseen with
    | poked h => exact Option.some.inj (h.symm.trans hlast)
    | cell h => cases h.symm.trans hlast
    | outside h => cases h.symm.trans hlast
  rw [hvalue] at hpushed
  exact ⟨hrun, hq, hc, hvalues, hpushed⟩

end Machine

end Fish
