import Fish.Proofs.SubStacks
import Mathlib.Algebra.BigOperators.Group.List.Basic
import Mathlib.Algebra.Order.Group.Multiset
import Mathlib.Tactic.Abel

/-!
# Rearranging values

Eight of the stack commands only move values: within a stack, between a stack and its register, and
between a stack and the one that is split off it. A tower holds the same values before and after,
each as often, except that an opening takes the count off and that the register of a closed stack is
dropped with what it holds. Opening and closing do not even change the order: read from the lowest
stack up, the values stand where they stood.

A stack that is split off is also a way to rearrange values further down. Rotated to the right and
merged back, it has its top value below the others, and for a stack of three that is what the
command for the three values on top does at once.

Main lemmas:

* `Tower.Rearranges.holdings_eq`    what one command does to the values that a tower holds
* `Tower.sequence_of_openStack`, `Tower.sequence_of_closeStack`   and to their order
* `Tower.Rearranged.balance`        what a run of commands does to them
* `Tower.rearranged_keeps`          all of this about runs in any order
* `Tower.rotateTop_apply`           rotating in a stack of its own
* `Tower.topShift_eq_rotateTop`     moving the top value below two others
-/

namespace Fish

/-- The command makes no values and removes none for their own sake: it moves them. -/
def StackCommand.isRearrangement : StackCommand → Bool
  | duplicate => false
  | remove => false
  | length => false
  | _ => true

/-! ## One stack -/

namespace Stack

variable {s t : Stack}

/-- The values of a stack and what its register holds. -/
def holdings (s : Stack) : Multiset Binary64 := s.values + s.register.toList

/-- The action moves values of a stack, or between the stack and its register. -/
def Moves (act : Action Stack Unit) : Prop := ∀ s t, act s = .ok () t → t.holdings = s.holdings

/-- Values in another order are the same holdings. -/
theorem holdings_of_perm {values : List Binary64} (h : values.Perm s.values) :
    ({ s with values } : Stack).holdings = s.holdings := by
  unfold holdings
  rw [Multiset.coe_eq_coe.2 h]

/-- A swap exchanges the two topmost values. -/
theorem moves_swap : Moves swap := by
  intro s t h
  rw [swap] at h
  split at h <;> cases h
  rename_i x y rest hvalues
  apply holdings_of_perm
  rw [hvalues]
  exact .swap x y rest

/-- A shift to the right brings the topmost value to the bottom. -/
theorem moves_shiftRight : Moves shiftRight := by
  intro s t h
  rw [shiftRight] at h
  split at h <;> cases h
  rename_i x rest hvalues
  apply holdings_of_perm
  rw [hvalues]
  exact List.perm_append_singleton x rest

/-- A shift to the left brings the bottom value to the top. -/
theorem moves_shiftLeft : Moves shiftLeft := by
  intro s t h
  rw [shiftLeft] at h
  split at h <;> cases h
  rename_i x hlast
  apply holdings_of_perm
  -- The last value stands at the end of the others.
  have hsplit : s.values.dropLast ++ [x] = s.values := List.dropLast_append_getLast? x hlast
  have hperm := (List.perm_append_singleton x s.values.dropLast).symm
  rwa [hsplit] at hperm

/-- The topmost of three values goes below the other two. -/
theorem moves_topShift : Moves topShift := by
  intro s t h
  rw [topShift] at h
  split at h <;> cases h
  rename_i x y z rest hvalues
  apply holdings_of_perm
  rw [hvalues]
  exact (List.Perm.cons y (.swap x z rest)).trans (.swap x y (z :: rest))

/-- A reversal turns all values around. -/
theorem moves_reverse : Moves reverse := by
  intro s t h
  cases h
  exact holdings_of_perm (List.reverse_perm s.values)

/-- Whether it is emptied or filled, the register gives or takes one value. -/
theorem moves_toggleRegister : Moves toggleRegister := by
  intro s t h
  rw [toggleRegister] at h
  split at h <;> cases h
  · -- The register is emptied onto the stack.
    rename_i value hregister
    show (value :: s.values : Multiset Binary64) + ([] : List Binary64) = s.holdings
    simp only [holdings, hregister, Option.toList_some, Multiset.coe_add, List.append_nil]
    exact Multiset.coe_eq_coe.2 (List.perm_append_singleton value s.values).symm
  · -- The register takes the topmost value.
    rename_i value rest hregister hvalues
    simp only [holdings, hregister, hvalues, Option.toList_some, Option.toList_none,
      Multiset.coe_add, List.append_nil]
    exact Multiset.coe_eq_coe.2 (List.perm_append_singleton value rest)

/-- A whole number of at most 53 bits can be served as a count if there are as many values. -/
theorem countWithin_ofNat {n available : Nat} (hn : n ≤ Nat.pow 2 53) (h : n ≤ available) :
    countWithin (.ofNat n) available = some n := by
  rw [Binary64.ofNat_of_le hn]
  simp only [countWithin, Bool.false_and, Bool.false_eq_true, if_false,
    Nat.mul_div_cancel n Binary64.unitsPerOne_pos, if_pos h]

end Stack

/-! ## Towers -/

namespace Tower

variable {t u v : Tower} {command : StackCommand} {commands : List StackCommand}

/-- All values of all stacks, and what the registers hold. -/
def holdings (t : Tower) : Multiset Binary64 := (t.toList.map Stack.holdings).sum

/-- The values of all stacks, from the bottom of the lowest stack to the top of the active one. -/
def sequence (t : Tower) : List Binary64 := t.toList.flatMap Stack.toList

/-- What a tower holds is what its active stack holds and what the others do. -/
theorem holdings_eq (t : Tower) :
    t.holdings = t.active.holdings + (t.below.map Stack.holdings).sum := by
  unfold holdings toList
  rw [((List.reverse_perm _).map Stack.holdings).sum_eq, List.map_cons, List.sum_cons]

/-- The values of the active stack come last. -/
theorem sequence_eq (t : Tower) :
    t.sequence = t.below.reverse.flatMap Stack.toList ++ t.active.toList := by
  rw [sequence, toList_eq, List.flatMap_append, List.flatMap_singleton]

/-- What a command takes away from the values of a tower: an opening the count, and a closing what
    the register of the closed stack holds. -/
def dropped (t : Tower) : StackCommand → Multiset Binary64
  | .openStack => t.active.top?.toList
  | .closeStack => t.active.register.toList
  | _ => 0

/-- The command rearranges the values of the first tower into the second. It succeeds, and a closing
    has a stack below to merge with. -/
structure Rearranges (t : Tower) (command : StackCommand) (u : Tower) : Prop where
  isRearrangement : command.isRearrangement = true
  performed : perform command t = .ok () u
  depth_of_close : command = .closeStack → 2 ≤ t.depth

/-- The commands rearrange the values one after the other, and take the given values away. -/
inductive Rearranged : Tower → List StackCommand → Multiset Binary64 → Tower → Prop
  | done (t : Tower) : Rearranged t [] 0 t
  | step {t u v : Tower} {command : StackCommand} {commands : List StackCommand}
      {lost : Multiset Binary64} :
    t.Rearranges command u → Rearranged u commands lost v →
    Rearranged t (command :: commands) (t.dropped command + lost) v

/-! ### Opening and closing -/

/-- An opening with a count that can be served. -/
theorem perform_openStack {count : Binary64} {rest : List Binary64} {size : Nat}
    (hvalues : t.active.values = count :: rest)
    (hsize : Stack.countWithin count rest.length = some size) :
    perform .openStack t = .ok ()
      { active := { values := rest.take size }
        below := { t.active with values := rest.drop size } :: t.below } := by
  rw [perform, openStack, Action.bind_apply]
  simp only [onActive, Action.on, Stack.splitOff, hvalues, hsize]
  rfl

/-- An opening that succeeds had such a count. -/
theorem performed_openStack (h : perform .openStack t = .ok () u) :
    ∃ count rest size, t.active.values = count :: rest ∧
      u = { active := { values := rest.take size }
            below := { t.active with values := rest.drop size } :: t.below } := by
  -- Without a count, or with one that cannot be served, it would have failed.
  cases hvalues : t.active.values with
  | nil =>
    rw [perform, openStack, Action.bind_apply] at h
    simp only [onActive, Action.on, Stack.splitOff, hvalues] at h
    cases h
  | cons count rest =>
    cases hsize : Stack.countWithin count rest.length with
    | none =>
      rw [perform, openStack, Action.bind_apply] at h
      simp only [onActive, Action.on, Stack.splitOff, hvalues, hsize] at h
      cases h
    | some size =>
      rw [perform_openStack hvalues hsize] at h
      cases h
      exact ⟨count, rest, size, rfl, rfl⟩

/-- A closing always does the same. -/
theorem performed_closeStack (h : perform .closeStack t = .ok () u) : u = t.closed := by
  cases h
  rfl

/-- A tower with more than one stack has one to merge the active one with. -/
theorem exists_parent (h : 2 ≤ t.depth) : ∃ parent rest, t.below = parent :: rest := by
  cases hbelow : t.below with
  | nil =>
    rw [depth, hbelow] at h
    exact absurd h (by decide)
  | cons parent rest => exact ⟨parent, rest, rfl⟩

/-- An opening takes the count off and leaves the other values where they are. -/
theorem sequence_of_openStack (h : perform .openStack t = .ok () u) :
    ∃ count, t.active.top? = some count ∧ t.sequence = u.sequence ++ [count] := by
  obtain ⟨count, rest, size, hvalues, rfl⟩ := performed_openStack h
  refine ⟨count, by rw [Stack.top?, hvalues, List.head?_cons], ?_⟩
  rw [sequence_eq, sequence_eq, List.reverse_cons, List.flatMap_append, List.flatMap_singleton]
  -- The two parts of the divided stack are next to each other.
  have hparts : (rest.drop size).reverse ++ (rest.take size).reverse = rest.reverse := by
    rw [← List.reverse_append, List.take_append_drop]
  simp only [Stack.toList, hvalues, List.reverse_cons, List.append_assoc, ← hparts]

/-- A closing leaves all values where they are. -/
theorem sequence_of_closeStack (h : perform .closeStack t = .ok () u) (hdepth : 2 ≤ t.depth) :
    u.sequence = t.sequence := by
  obtain ⟨parent, rest, hbelow⟩ := exists_parent hdepth
  rw [performed_closeStack h, closed_of_cons hbelow, sequence_eq, sequence_eq, hbelow]
  -- The values of the closed stack come last before and after.
  simp only [Stack.toList, Stack.absorb, List.reverse_append, List.reverse_cons,
    List.flatMap_append, List.flatMap_singleton, List.append_assoc]

/-! ### What a tower holds -/

/-- What moves the values of a stack moves those of the tower. -/
theorem holdings_of_moves {act : Action Stack Unit} (hact : Stack.Moves act)
    (h : onActive act t = .ok () u) : t.holdings = u.holdings + 0 := by
  simp only [onActive, Action.on] at h
  cases hs : act t.active with
  | error fault s =>
    rw [hs] at h
    cases h
  | ok a s =>
    rw [hs] at h
    cases h
    rw [add_zero, holdings_eq, holdings_eq, hact t.active s hs]

/-- An opening only takes the count away. -/
theorem holdings_of_openStack (h : perform .openStack t = .ok () u) :
    t.holdings = u.holdings + t.dropped .openStack := by
  obtain ⟨count, rest, size, hvalues, rfl⟩ := performed_openStack h
  have htop : t.active.top? = some count := by rw [Stack.top?, hvalues, List.head?_cons]
  -- The values are the count and the two parts, and these are counted separately afterwards.
  have hparts : (t.active.values : Multiset Binary64) =
      {count} + (rest.take size + rest.drop size) := by
    rw [hvalues, Multiset.coe_add, List.take_append_drop, Multiset.singleton_add,
      Multiset.cons_coe]
  simp only [holdings_eq, dropped, Stack.holdings, htop, hparts, List.map_cons, List.sum_cons,
    Option.toList_some, Option.toList_none, Multiset.coe_nil, Multiset.coe_singleton]
  abel

/-- A closing only takes away what the register of the closed stack holds. -/
theorem holdings_of_closeStack (h : perform .closeStack t = .ok () u) (hdepth : 2 ≤ t.depth) :
    t.holdings = u.holdings + t.dropped .closeStack := by
  obtain ⟨parent, rest, hbelow⟩ := exists_parent hdepth
  rw [performed_closeStack h, closed_of_cons hbelow]
  simp only [holdings_eq, hbelow, dropped, Stack.holdings, Stack.absorb, List.map_cons,
    List.sum_cons, ← Multiset.coe_add]
  abel

/-- A command leaves the values that a tower holds, but for those that it takes away. -/
theorem Rearranges.holdings_eq (h : t.Rearranges command u) :
    t.holdings = u.holdings + t.dropped command := by
  obtain ⟨hmoves, hperform, hdepth⟩ := h
  -- One case for each command; those that make or remove values are excluded.
  cases command with
  | duplicate | remove | length => cases hmoves
  | openStack => exact holdings_of_openStack hperform
  | closeStack => exact holdings_of_closeStack hperform (hdepth rfl)
  | swap => exact holdings_of_moves Stack.moves_swap hperform
  | topShift => exact holdings_of_moves Stack.moves_topShift hperform
  | shiftRight => exact holdings_of_moves Stack.moves_shiftRight hperform
  | shiftLeft => exact holdings_of_moves Stack.moves_shiftLeft hperform
  | reverse => exact holdings_of_moves Stack.moves_reverse hperform
  | register => exact holdings_of_moves Stack.moves_toggleRegister hperform

/-- So does a run of commands. -/
theorem Rearranged.balance {lost : Multiset Binary64} (h : Rearranged t commands lost u) :
    t.holdings = u.holdings + lost := by
  -- By induction on the run: what is taken away adds up.
  induction h with
  | done t => rw [add_zero]
  | step hstep _ ih => rw [hstep.holdings_eq, ih, add_assoc, add_comm (dropped _ _)]

/-- Any number of rearranging commands in any order leave the values of all stacks and registers,
    each as often as before, but for the counts that the openings take and what the registers of
    the closed stacks hold. In the sequence of all values an opening leaves the others where they
    are when it takes the count off its end, and a closing leaves all of them. -/
theorem rearranged_keeps {lost : Multiset Binary64} (h : Rearranged t commands lost u) :
    t.holdings = u.holdings + lost ∧
    (∀ v w : Tower, v.Rearranges .openStack w → ∃ count, v.active.top? = some count ∧
      v.dropped .openStack = {count} ∧ v.sequence = w.sequence ++ [count]) ∧
    (∀ v w : Tower, v.Rearranges .closeStack w → v.dropped .closeStack = v.active.register.toList ∧
      w.sequence = v.sequence) := by
  refine ⟨h.balance, fun v w hopen => ?_, fun v w hclose => ?_⟩
  · obtain ⟨count, htop, hsequence⟩ := sequence_of_openStack hopen.performed
    refine ⟨count, htop, ?_, hsequence⟩
    rw [dropped, htop]
    rfl
  · exact ⟨rfl, sequence_of_closeStack hclose.performed (hclose.depth_of_close rfl)⟩

/-- A stack of two is split off, one of its values goes into its register, and it is closed. -/
theorem rearranged_keeps_of_closed_register :
    let t := ofStack (.ofList [.nan, .ofNat 1, .ofNat 2, .ofNat 3])
    let u := ofStack (.ofList [.nan, .ofNat 1])
    Rearranged t [.swap, .openStack, .register, .closeStack] {.ofNat 2, .ofNat 3} u ∧
      t.holdings = u.holdings + {.ofNat 2, .ofNat 3} := by
  intro t u
  let child : Stack := .ofList [.ofNat 1, .ofNat 3]
  let parent : Stack := .ofList [.nan]
  have hswap : t.Rearranges .swap (ofStack (.ofList [.nan, .ofNat 1, .ofNat 3, .ofNat 2])) :=
    ⟨rfl, rfl, nofun⟩
  have hcount : Stack.countWithin (.ofNat 2) 3 = some 2 :=
    Stack.countWithin_ofNat (by decide) (by decide)
  have hperform := perform_openStack (t := ofStack (.ofList [.nan, .ofNat 1, .ofNat 3, .ofNat 2]))
    rfl hcount
  have hopen : Rearranges (ofStack (.ofList [.nan, .ofNat 1, .ofNat 3, .ofNat 2])) .openStack
      { active := child, below := [parent] } := ⟨rfl, hperform, nofun⟩
  have hregister : Rearranges { active := child, below := [parent] } .register
      { active := { values := [.ofNat 1], register := some (.ofNat 3) }, below := [parent] } :=
    ⟨rfl, rfl, nofun⟩
  have hclose : Rearranges
      { active := { values := [.ofNat 1], register := some (.ofNat 3) }, below := [parent] }
      .closeStack u := ⟨rfl, rfl, fun _ => by decide⟩
  have hrun : Rearranged t [.swap, .openStack, .register, .closeStack] {.ofNat 2, .ofNat 3} u :=
    .step hswap (.step hopen (.step hregister (.step hclose (.done u))))
  obtain ⟨hbalance, -⟩ := rearranged_keeps hrun
  exact ⟨hrun, hbalance⟩

/-! ## Rotating the values on top -/

/-- Splits off the given number of values, moves the top one of them to the bottom, and merges them
    back. -/
def rotateTop (count : Nat) : Action Tower Unit := do
  onActive (Stack.push (.ofNat count))
  perform .openStack
  perform .shiftRight
  perform .closeStack

/-- The value on top goes below the others that were split off with it. -/
theorem rotateTop_apply {x : Binary64} {rest : List Binary64} (upper : List Binary64)
    (hvalues : t.active.values = x :: upper ++ rest) (hsize : upper.length + 1 ≤ Nat.pow 2 53) :
    rotateTop (upper.length + 1) t =
      .ok () { t with active := { t.active with values := upper ++ x :: rest } } := by
  let size := upper.length + 1
  let pushed : Stack := { t.active with values := .ofNat size :: t.active.values }
  let parent : Stack := { t.active with values := rest }
  have hcount : Stack.countWithin (.ofNat size) t.active.values.length = some size := by
    apply Stack.countWithin_ofNat hsize
    simp [hvalues]
  have htake : t.active.values.take size = x :: upper := by
    rw [hvalues]
    exact List.take_left' rfl
  have hdrop : t.active.values.drop size = rest := by
    rw [hvalues]
    exact List.drop_left' rfl
  -- The count goes onto the stack, the stack is divided, its upper part rotated and put back.
  have hpush : onActive (Stack.push (.ofNat size)) t = .ok () { t with active := pushed } := rfl
  have hopen : perform .openStack { t with active := pushed } =
      .ok () { active := { values := x :: upper }, below := parent :: t.below } := by
    rw [perform_openStack rfl hcount, htake, hdrop]
  have hshift : perform .shiftRight
      { active := { values := x :: upper }, below := parent :: t.below } =
      .ok () { active := { values := upper ++ [x] }, below := parent :: t.below } := rfl
  have hclose : perform .closeStack
      { active := { values := upper ++ [x] }, below := parent :: t.below } =
      .ok () { t with active := { t.active with values := upper ++ [x] ++ rest } } := rfl
  rw [rotateTop, Action.bind_of_ok hpush, Action.bind_of_ok hopen, Action.bind_of_ok hshift, hclose,
    List.append_assoc, List.singleton_append]

/-- The command that moves the top value below the two under it leaves the same tower as rotating
    three values in a stack of their own, and neither fails if there are three. -/
theorem topShift_eq_rotateTop (h : 3 ≤ t.active.size) :
    ∃ u, perform .topShift t = .ok () u ∧ rotateTop 3 t = .ok () u := by
  match hvalues : t.active.values with
  | [] | [_] | [_, _] =>
    rw [Stack.size, hvalues] at h
    exact absurd h (by simp)
  | x :: y :: z :: rest =>
    have hsize : 3 ≤ Nat.pow 2 53 := by decide
    have hrotate := rotateTop_apply [y, z] hvalues hsize
    refine ⟨_, ?_, hrotate⟩
    simp only [perform, onActive, Action.on, Stack.topShift, hvalues]
    rfl

/-- Four values over another stack, with both registers full. -/
theorem topShift_eq_rotateTop_over_stack :
    let active : Stack := { values := [.ofNat 1, .nan, .ofNat 3, .ofNat 4], register := some .nan }
    let t : Tower := { active, below := [{ register := some (.ofNat 5) }] }
    3 ≤ t.active.size ∧ ∃ u, perform .topShift t = .ok () u ∧ rotateTop 3 t = .ok () u := by
  intro active t
  have hsize : 3 ≤ t.active.size := by decide
  exact ⟨hsize, topShift_eq_rotateTop hsize⟩

end Tower

end Fish
