import Fish.Proofs.Calls
import Mathlib.Data.List.Basic

/-!
# The stream of random headings

The generator computes the word of its stream that it needs next; one that computes whole blocks
at a time, and keeps the words until they are asked for, reads the same words in the same order
(`ChaCha.Reader`). The two uppermost bits of each word are a heading.

Only a random mirror takes a heading from the generator. So the headings that a machine draws, in
the order in which it draws them, are the first ones of the sequence that belongs to its seed,
whatever the program is and whatever it does between the draws: all that the sequence is asked for
is the next term.

Main lemmas:

* `ChaCha.Reader.take_eq`          words read block by block are those of the stream
* `Machine.step_of_random_mirror`  a random mirror turns the pointer to the next heading
* `Machine.generator_next_of_not`  every other step draws nothing
* `Machine.events_drawn`           the headings that a number of steps draw
* `Machine.one_stream_per_seed`    all of it for the machines of one seed
-/

namespace Fish

namespace ChaCha

variable {key : Key} {k n : Nat} {w : UInt32}

/-- A block holds sixteen words of the stream. -/
theorem toList_block (key : Key) (k : Nat) :
    (block key k).toList = (List.range' (16 * k) 16).map (word key) := by
  apply List.ext_getElem
  · simp
  · intro i hi _
    have hi16 : i < 16 := by simpa using hi
    have hdiv : (16 * k + i) / 16 = k := by omega
    have hmod : (16 * k + i) % 16 = i := by omega
    simp [word, hdiv, hmod, Vector.get]

/-- Consecutive blocks hold consecutive words. -/
theorem flatMap_block (key : Key) (k span : Nat) :
    (List.range' k span).flatMap (fun j => (block key j).toList) =
      (List.range' (16 * k) (16 * span)).map (word key) := by
  -- By induction on the number of blocks, the first one taken off.
  induction span generalizing k with
  | zero => rfl
  | succ span ih =>
    rw [List.range'_succ, List.flatMap_cons, ih, toList_block, ← List.map_append]
    have hnext : 16 * (k + 1) = 16 * k + 16 := by omega
    have hlength : 16 * (span + 1) = 16 + 16 * span := by omega
    rw [hnext, hlength, List.range'_append_1]

/-- A reader of the stream that computes some blocks at a time. -/
structure Reader where
  key : Key
  /-- How many blocks were computed so far. -/
  blocks : Nat := 0
  /-- The words of the last blocks that were not asked for yet. -/
  unread : List UInt32 := []

namespace Reader

/-- Computes the next blocks. -/
def fill (r : Reader) (span : Nat) : Reader :=
  { r with
    blocks := r.blocks + span
    unread := (List.range' r.blocks span).flatMap fun k => (block r.key k).toList }

/-- The reader with at least one word, filled if none was left. -/
def filled (span : Nat) (r : Reader) : Reader := if r.unread.isEmpty then r.fill span else r

/-- Reads the next word. -/
def read (span : Nat) (r : Reader) : Option (UInt32 × Reader) :=
  match (r.filled span).unread with
  | [] => none
  | w :: rest => some (w, { r.filled span with unread := rest })

/-- The next words. -/
def take (span : Nat) : Nat → Reader → List UInt32
  | 0, _ => []
  | n + 1, r =>
    match r.read span with
    | none => []
    | some (w, r) => w :: take span n r

/-- The reader has read a number of words: the unread ones are those from there to the end of the
    last block that was computed. -/
structure At (r : Reader) (n : Nat) : Prop where
  le : n ≤ 16 * r.blocks
  unread : r.unread = (List.range' n (16 * r.blocks - n)).map (word r.key)

variable {r : Reader} {span : Nat}

/-- So many words are left of the blocks that were computed. -/
theorem At.length_unread (h : r.At n) : r.unread.length = 16 * r.blocks - n := by
  rw [h.unread, List.length_map, List.length_range']

/-- Filling the reader does not change its key. -/
@[simp] theorem key_filled : (r.filled span).key = r.key := by
  unfold filled
  split <;> rfl

/-- Filling the reader goes on where its blocks end. -/
theorem At.filled (h : r.At n) : (r.filled span).At n := by
  unfold Reader.filled
  split
  · next hempty =>
    have hlength := h.length_unread
    rw [List.isEmpty_iff.1 hempty, List.length_nil] at hlength
    have hle := h.le
    -- No word is left, so the blocks end just where the reading is.
    have hend : n = 16 * r.blocks := by omega
    have hspan : 16 * (r.blocks + span) - n = 16 * span := by omega
    constructor
    · simp only [fill]
      omega
    · simp only [fill, flatMap_block, ← hend, hspan]
  · exact h

/-- After it is filled by at least one block, the reader has a word. -/
theorem At.lt_filled (h : r.At n) (hspan : 0 < span) : n < 16 * (r.filled span).blocks := by
  unfold Reader.filled
  have hle := h.le
  split
  · -- The new blocks hold words further on.
    simp only [fill]
    omega
  · next hne =>
    -- There was a word left.
    have hlength := h.length_unread
    rw [List.isEmpty_iff] at hne
    have hpos := List.length_pos_iff.2 hne
    omega

/-- A reader that computes at least one block at a time reads the next word of the stream. -/
theorem At.read (h : r.At n) (hspan : 0 < span) :
    ∃ r', r.read span = some (word r.key n, r') ∧ r'.key = r.key ∧ r'.At (n + 1) := by
  -- There is a word to read, and those that are left begin one further on.
  have hlt := h.lt_filled hspan
  have hrest : 16 * (r.filled span).blocks - n = 16 * (r.filled span).blocks - (n + 1) + 1 := by
    omega
  let rest := (List.range' (n + 1) (16 * (r.filled span).blocks - (n + 1))).map (word r.key)
  have hcons : (r.filled span).unread = word r.key n :: rest := by
    rw [h.filled.unread, key_filled, hrest, List.range'_succ, List.map_cons]
  have hread : r.read span = some (word r.key n, { r.filled span with unread := rest }) := by
    rw [Reader.read, hcons]
  exact ⟨_, hread, key_filled, hlt, by simp only [key_filled, rest]⟩

/-- So it reads any number of words, from where it is. -/
theorem At.take (h : r.At n) (hspan : 0 < span) (count : Nat) :
    r.take span count = (List.range' n count).map (word r.key) := by
  induction count generalizing r n with
  | zero => rfl
  | succ count ih =>
    obtain ⟨r', hread, hkey, hat⟩ := h.read hspan
    simp only [Reader.take, hread]
    rw [ih hat, hkey, List.range'_succ, List.map_cons]

/-- However many blocks are computed at a time, the words that are read are those of the stream. -/
theorem take_eq (key : Key) (hspan : 0 < span) (count : Nat) :
    ({ key } : Reader).take span count = (List.range count).map (word key) := by
  have hstart : ({ key } : Reader).At 0 := ⟨Nat.zero_le _, rfl⟩
  rw [hstart.take hspan, List.range_eq_range']

end Reader

end ChaCha

/-- Only a random mirror changes the generator. -/
theorem Instruction.eq_mirror_of_generator {i : Instruction} (h : Part.generator ∈ i.writes) :
    i = .mirror .random := by
  cases i with
  | mirror mirror =>
    cases mirror with
    | random => rfl
    | _ => simp [writes] at h
  | stack command => cases command <;> simp [writes] at h
  | _ => simp [writes] at h

/-- The two uppermost bits of a word are the number of a heading. -/
theorem Generator.getElem?_headingOfWord (w : UInt32) :
    [Heading.up, .right, .down, .left][(w >>> 30).toNat]? = some (headingOfWord w) := by
  have hlt : (w >>> 30).toNat < 4 := by
    rw [UInt32.toNat_shiftRight]
    have := w.toNat_lt
    simp only [Nat.shiftRight_eq_div_pow]
    show w.toNat / 2 ^ 30 < 4
    omega
  -- Two bits are one of four numbers, and each of them has its heading.
  unfold headingOfWord
  generalize (w >>> 30).toNat = bits at hlt ⊢
  match bits, hlt with
  | 0, _ | 1, _ | 2, _ | 3, _ => rfl

/-- Each term of the sequence of headings is two bits of a word, whether the word is computed alone
    or read at its turn. -/
theorem Generator.exists_word (key : ChaCha.Key) (k : Nat) :
    ∃ w, (ChaCha.block key (k / 16))[k % 16]? = some w ∧
      (∀ span n, 0 < span → k < n → (ChaCha.Reader.take span n { key })[k]? = some w) ∧
      [Heading.up, .right, .down, .left][(w >>> 30).toNat]? = some (headingAt key k) := by
  refine ⟨ChaCha.word key k, ?_, ?_, getElem?_headingOfWord _⟩
  · have hlt : k % 16 < 16 := Nat.mod_lt k (by omega)
    rw [Vector.getElem?_eq_getElem hlt]
    rfl
  · intro span n hspan hk
    simp [ChaCha.Reader.take_eq key hspan, hk]

namespace Machine

variable {m : Machine}

/-! ## One step -/

/-- The next step executes a random mirror: the machine is running, outside quotes, and at one. -/
def AtRandomMirror (m : Machine) : Prop :=
  m.status = .running ∧ m.quoting = false ∧
    m.cell?.map (·.instruction) = some (Instruction.mirror .random)

instance (m : Machine) : Decidable m.AtRandomMirror := inferInstanceAs (Decidable (_ ∧ _ ∧ _))

/-- The heading that the next step draws: the one that it leaves, if it executes a random mirror. -/
def drawn? (m : Machine) : Option Heading :=
  if m.AtRandomMirror then some m.next.pointer.heading else none

/-- A random mirror turns the pointer to the next heading, whatever the heading was before. -/
theorem step_of_random_mirror (h : m.AtRandomMirror) :
    m.step = .ok .running m.next ∧
      m.next.pointer.heading = Generator.headingAt m.generator.key m.generator.drawn ∧
      m.next.generator = { m.generator with drawn := m.generator.drawn + 1 } := by
  obtain ⟨hrun, hq, hc⟩ := h
  obtain ⟨cell, hcell, hi⟩ := Option.map_eq_some_iff.1 hc
  -- The cell is obeyed, and all that it does is to pass the mirror.
  have he : executeNext m = .ok .advance (m.counted.passMirror .random) := by
    rw [executeNext_of_obeying hcell (.inl hq), obey, hi]
    rfl
  have hstep := step_of_ok hrun he
  have hstatus : ((m.counted.passMirror .random).move .advance).status = .running :=
    (status_move ..).trans hrun
  rw [hstatus] at hstep
  rw [next_of_step_ok hstep]
  -- The move that follows changes neither the heading nor the generator.
  exact ⟨hstep, move_keeps (p := .heading) (by decide) (by decide) _ .advance,
    move_keeps (p := .generator) (by decide) (by decide) _ .advance⟩

/-- A step that executes anything but a random mirror draws nothing. -/
theorem generator_next_of_not (h : ¬m.AtRandomMirror) : m.next.generator = m.generator := by
  by_cases hrun : m.status = .running
  · apply next_keeps (p := .generator) _ nofun nofun nofun nofun
    -- A cell that changes the generator is a random mirror that is obeyed.
    intro cell hc hwrites
    obtain ⟨hobey, hwrites⟩ := obeying_of_mem_writes hwrites nofun
    have hi := Instruction.eq_mirror_of_generator hwrites
    rw [hi] at hobey
    apply h
    exact ⟨hrun, hobey.resolve_right nofun, by rw [hc, Option.map_some, hi]⟩
  · rw [next_of_not_running hrun]

/-! ## Any number of steps -/

/-- The headings that a number of steps draw are the next ones of the sequence, and the generator
    counts them. -/
theorem events_drawn (m : Machine) (k : Nat) :
    m.events drawn? k =
      (List.range' m.generator.drawn (m.events drawn? k).length).map
        (Generator.headingAt m.generator.key) ∧
    (m.after k).generator =
      { m.generator with drawn := m.generator.drawn + (m.events drawn? k).length } := by
  -- By induction on the steps: the last one draws the next heading, or none.
  induction k with
  | zero => exact ⟨rfl, rfl⟩
  | succ k ih =>
    obtain ⟨hevents, hgenerator⟩ := ih
    rw [events_succ, after_succ, drawn?]
    split
    · next hmirror =>
      obtain ⟨-, hheading, hnext⟩ := step_of_random_mirror hmirror
      rw [hheading, hnext, hgenerator]
      simp only [Option.toList_some, List.length_append, List.length_singleton]
      constructor
      · -- The new heading is the term after those drawn so far.
        rw [List.range'_1_concat, List.map_append, ← hevents]
        rfl
      · rfl
    · next hmirror =>
      rw [generator_next_of_not hmirror]
      simp only [Option.toList_none, List.append_nil]
      exact ⟨hevents, hgenerator⟩

/-- The same from the start of a program, when nothing was drawn yet. -/
theorem events_drawn_start (grid : Grid) (values : List Binary64) (seed : UInt64) (input : Input)
    (output : Output) (n : Nat) :
    let m := start grid values seed input output
    m.events drawn? n =
      (List.range (m.events drawn? n).length).map (Generator.headingAt (.ofSeed seed)) ∧
    (m.after n).generator = { key := .ofSeed seed, drawn := (m.events drawn? n).length } := by
  intro m
  obtain ⟨hevents, hgenerator⟩ := events_drawn m n
  have hzero : m.generator.drawn = 0 := rfl
  rw [hzero, ← List.range_eq_range'] at hevents
  rw [hzero, Nat.zero_add] at hgenerator
  exact ⟨hevents, hgenerator⟩

/-- Every seed has one sequence of headings. Its terms are the two uppermost bits of the words of
    the key stream of the seed, each word being at its place in its block, and the one that is read
    at its turn by whoever reads the stream some blocks at a time. Whatever program is started with
    the seed, on whatever stack, input and output, and whatever number of steps it has taken: the
    headings that it has drawn are the first ones of the sequence, as many as random mirrors were
    executed, and the generator is where the sequence goes on. A random mirror succeeds and leaves
    the next heading, and every other step draws nothing. Of two programs with one seed the one that
    has drawn less has drawn the same. -/
theorem one_stream_per_seed (seed : UInt64) :
    ∃ headings : Nat → Heading,
      (∀ k, ∃ w, (ChaCha.block (.ofSeed seed) (k / 16))[k % 16]? = some w ∧
        (∀ span n, 0 < span → k < n →
          (ChaCha.Reader.take span n { key := .ofSeed seed })[k]? = some w) ∧
        [Heading.up, .right, .down, .left][(w >>> 30).toNat]? = some (headings k)) ∧
      ∀ grid values input output,
        let m := start grid values seed input output
        (∀ n, m.events drawn? n = (List.range (m.events drawn? n).length).map headings ∧
          (m.after n).generator = { key := .ofSeed seed, drawn := (m.events drawn? n).length }) ∧
        (∀ n, (m.after n).AtRandomMirror →
          (m.after n).step = .ok .running (m.after (n + 1)) ∧
          (m.after (n + 1)).pointer.heading = headings (m.events drawn? n).length) ∧
        (∀ n, ¬(m.after n).AtRandomMirror →
          (m.after (n + 1)).generator = (m.after n).generator) ∧
        (∀ es n, History m es n → ∃ k, n = m.after k) ∧
        ∀ grid' values' input' output' n n',
          let m' := start grid' values' seed input' output'
          (m.events drawn? n).length ≤ (m'.events drawn? n').length →
            m.events drawn? n <+: m'.events drawn? n' := by
  refine ⟨Generator.headingAt (.ofSeed seed), Generator.exists_word (.ofSeed seed), ?_⟩
  intro grid values input output m
  refine ⟨events_drawn_start grid values seed input output, fun n hmirror => ?_,
    fun n hmirror => ?_, fun es n h => h.exists_after, ?_⟩
  · obtain ⟨hstep, hheading, -⟩ := step_of_random_mirror hmirror
    obtain ⟨-, hgenerator⟩ := events_drawn_start grid values seed input output n
    rw [hgenerator] at hheading
    rw [after_succ]
    exact ⟨hstep, hheading⟩
  · rw [after_succ]
    exact generator_next_of_not hmirror
  · intro grid' values' input' output' n n' m' hle
    -- Both lists are made of the first terms of one sequence.
    rw [(events_drawn_start grid values seed input output n).1,
      (events_drawn_start grid' values' seed input' output' n').1]
    obtain ⟨more, hmore⟩ := Nat.exists_eq_add_of_le hle
    rw [hmore, List.range_add, List.map_append]
    exact List.prefix_append ..

/-- Two programs with the seed zero: one is a single random mirror, and the other comes to one after
    it has passed over it between quotes. -/
theorem one_stream_per_seed_zero :
    let m := start (.ofRows [[.ofChar 'x']]) [] 0 {} {}
    let m' := start (.ofRows [['"', 'x', '"', 'x'].map Cell.ofChar]) [.nan] 0 {} {}
    m.events drawn? 1 = [.left] ∧ m'.events drawn? 3 = [] ∧
      m'.events drawn? 4 <+: m.events drawn? 1 ∧ m.step = .ok .running (m.after 1) := by
  intro m m'
  obtain ⟨headings, -, hruns⟩ := one_stream_per_seed 0
  have hm : m.events drawn? 1 = [.left] := by decide +kernel
  have hm' : (m'.events drawn? 4).length = 1 := by decide +kernel
  obtain ⟨-, -, -, -, hprefix⟩ :=
    hruns (.ofRows [['"', 'x', '"', 'x'].map Cell.ofChar]) [.nan] {} {}
  obtain ⟨-, hdraws, -, -, -⟩ := hruns (.ofRows [[.ofChar 'x']]) [] {} {}
  have hmirror : m.AtRandomMirror := by decide +kernel
  refine ⟨hm, by decide +kernel, hprefix _ [] {} {} 4 1 ?_, (hdraws 0 hmirror).1⟩
  show (m'.events drawn? 4).length ≤ (m.events drawn? 1).length
  rw [hm, hm']
  decide

end Machine

end Fish
