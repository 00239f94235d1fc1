import Fish.CommandLine.Arguments

/-!
# Settings of a command line

A command line is read one setting after the other: the path of a script, or the value of an option.
Settings commute, because each of them looks at nothing but its own part of the arguments; only the
numbers for the stack are kept in the order in which they are given. So the order in which other
settings are taken does not matter, and whether one of them is taken at the end tells whether it is
taken at all.

Main lemmas:

* `Arguments.take_comm`          settings commute
* `Arguments.takeAll_of_perm`    so their order does not matter
* `Arguments.read_attached`      a value attached to its option is read whatever it is
* `Arguments.read_gives`         any form of an option is read as a setting, or rejected
* `Arguments.read_namesScript`   so is any form of a script
-/

namespace Fish.CommandLine

/-! ## Settings -/

/-- What a command line is made of: the path of a script, and values of options. -/
inductive Setting
  | script (path : String)
  | option (flag : Flag) (text : String)
deriving DecidableEq

/-- The setting is a number for the stack. -/
def Setting.isNumber : Setting → Bool
  | option .value _ => true
  | _ => false

namespace Arguments

variable {a : Arguments} {r : Except Refusal Arguments} {s t : Setting} {l k : List Setting}

/-- Takes a setting. -/
def take (a : Arguments) : Setting → Except Refusal Arguments
  | .script path => a.setScript path
  | .option flag text => a.set flag text

/-- Takes settings one after the other. -/
def takeAll (r : Except Refusal Arguments) (settings : List Setting) : Except Refusal Arguments :=
  settings.foldl (fun r s => r >>= fun a => a.take s) r

/-- The first setting is taken first. -/
theorem takeAll_cons :
    takeAll r (s :: l) = takeAll (r >>= fun a => a.take s) l := rfl

/-- Settings may be taken in two parts. -/
theorem takeAll_append : takeAll r (l ++ k) = takeAll (takeAll r l) k := List.foldl_append

/-- A setting that is not taken is not a request for help. -/
theorem take_eq_error {refusal : Refusal} (h : a.take s = .error refusal) : refusal = .invalid := by
  cases s with
  | script path =>
    simp only [take, setScript] at h
    grind
  | option flag text =>
    cases flag <;> simp only [take, set] at h <;> grind

/-- After a refusal nothing more is taken. -/
theorem takeAll_error (refusal : Refusal) (l : List Setting) :
    takeAll (.error refusal) l = .error refusal := by
  induction l with
  | nil => rfl
  | cons s l ih => exact ih

/-- Settings that are not all taken are not a request for help. -/
theorem takeAll_eq_error {refusal : Refusal} (h : takeAll (.ok a) l = .error refusal) :
    refusal = .invalid := by
  induction l generalizing a with
  | nil => cases h
  | cons s l ih =>
    rw [takeAll_cons] at h
    have hfirst : (Except.ok a >>= fun a => a.take s) = a.take s := rfl
    rw [hfirst] at h
    -- The refusal is that of the first setting which is not taken.
    cases htake : a.take s with
    | ok b =>
      rw [htake] at h
      exact ih h
    | error other =>
      rw [htake, takeAll_error] at h
      cases h
      exact take_eq_error htake

/-! ## The order of settings -/

/-- Two settings may be exchanged unless both are numbers: they change different parts of the
    arguments, or the second one is too many. -/
theorem take_comm (a : Arguments) (h : s.isNumber = false ∨ t.isNumber = false) :
    (a.take s >>= fun b => b.take t) = (a.take t >>= fun b => b.take s) := by
  rcases s with path | ⟨flag, text⟩ <;> rcases t with path' | ⟨flag', text'⟩
  · -- The second path is too many, whichever it is.
    simp only [take, setScript, bind, Except.bind]
    grind
  · cases flag' <;> simp only [take, set, setScript, bind, Except.bind] <;> grind
  · cases flag <;> simp only [take, set, setScript, bind, Except.bind] <;> grind
  · -- So it is with a value of the same option, but for two numbers, which are excluded.
    cases flag <;> cases flag' <;> simp only [take, set, bind, Except.bind] <;>
      grind [Setting.isNumber]

/-- A setting may be taken after others instead of before them. -/
theorem takeAll_take (h : ∀ t ∈ l, s.isNumber = false ∨ t.isNumber = false) :
    takeAll (r >>= fun a => a.take s) l = takeAll r l >>= fun a => a.take s := by
  -- The setting is moved past the others one by one.
  induction l generalizing r with
  | nil => rfl
  | cons t l ih =>
    obtain ⟨ht, hl⟩ := List.forall_mem_cons.1 h
    rw [takeAll_cons, takeAll_cons, ← ih hl, bind_assoc, bind_assoc]
    simp only [take_comm _ ht]

/-- The numbers may be taken last. -/
theorem takeAll_partition (r : Except Refusal Arguments) (l : List Setting) :
    takeAll r l = takeAll (takeAll r (l.filter (!·.isNumber))) (l.filter (·.isNumber)) := by
  induction l generalizing r with
  | nil => rfl
  | cons s l ih =>
    rw [takeAll_cons, ih]
    cases hs : s.isNumber with
    -- A setting that is no number is taken where it stands.
    | false => simp [hs, takeAll_cons]
    | true =>
      -- A number in front of the others is taken behind them, which are no numbers.
      have hothers : ∀ t ∈ l.filter (!·.isNumber), s.isNumber = false ∨ t.isNumber = false := by
        intro t ht
        exact .inr (by simpa using (List.mem_filter.1 ht).2)
      rw [takeAll_take hothers]
      simp [hs, takeAll_cons]

/-- The order of settings does not matter, except for that of the numbers. -/
theorem takeAll_of_perm (h : l.Perm k) (hkeep : l.filter (·.isNumber) = k.filter (·.isNumber)) :
    takeAll r l = takeAll r k := by
  rw [takeAll_partition r l, takeAll_partition r k, hkeep]
  congr 1
  -- What is left are settings of which any two may be exchanged.
  refine List.Perm.foldl_eq' (h.filter _) (fun s hs t ht r => ?_) r
  have hnumber : t.isNumber = false ∨ s.isNumber = false := by
    exact .inl (by simpa using (List.mem_filter.1 ht).2)
  rw [bind_assoc, bind_assoc]
  simp only [take_comm _ hnumber]

end Arguments

/-! ## Texts of settings -/

/-- The long name of an option. -/
def Flag.name : Flag → String
  | code => "code"
  | string => "string"
  | value => "value"
  | seed => "seed"
  | maxSteps => "max-steps"

/-- The short name of an option, if it has one. -/
def Flag.letter? : Flag → Option Char
  | code => some 'c'
  | string => some 's'
  | value => some 'v'
  | _ => none

/-- Arguments that give a value to an option, in any of the forms that there are. -/
inductive Flag.Gives (flag : Flag) : List String → Prop
  | long (text : String) : Gives flag ["--" ++ flag.name ++ "=" ++ text]
  | longApart (text : String) : Gives flag ["--" ++ flag.name, text]
  | short {letter : Char} {text : List Char} : flag.letter? = some letter → text ≠ [] →
    Gives flag [String.ofList ('-' :: letter :: text)]
  | shortApart {letter : Char} (text : String) : flag.letter? = some letter →
    Gives flag [String.ofList ['-', letter], text]

/-- Arguments that name a script: a path without the look of an option, or any path after `--`. -/
inductive NamesScript : List String → Prop
  | plain {path : String} : looksLikeOption path = false → NamesScript [path]
  | afterMark (path : String) : NamesScript ["--", path]

/-- The forms in which a setting is written out: attached to the long name of its option, or, if it
    is a number, as an argument of its own after the short name. -/
inductive Setting.Writes : Setting → List String → Prop
  | attached (flag : Flag) (text : String) :
    Writes (.option flag text) ["--" ++ flag.name ++ "=" ++ text]
  | apart (text : String) : Writes (.option .value text) ["-v", text]

/-- After the long name of an option, an equals sign and anything at all, the latter is the value.
    -/
theorem Argument.ofLong_attached (flag : Flag) (cs : List Char) :
    ofLong (flag.name.toList ++ '=' :: cs) = .option flag (some (String.ofList cs)) := by
  cases flag <;> rfl

/-- So it is in a whole argument. -/
theorem Argument.of_attached (flag : Flag) (text : String) :
    of ("--" ++ flag.name ++ "=" ++ text) = .option flag (some text) := by
  have hlist : ("--" ++ flag.name ++ "=" ++ text).toList =
      '-' :: '-' :: (flag.name.toList ++ '=' :: text.toList) := by
    simp [String.toList_append]
  rw [of, hlist]
  show ofLong _ = _
  rw [ofLong_attached, String.ofList_toList]

/-- A long name alone is an option without a value. -/
theorem Argument.of_name (flag : Flag) : of ("--" ++ flag.name) = .option flag none := by
  cases flag <;> rfl

/-- After the letter of an option comes the value, if there is any text. -/
theorem Argument.of_letter {flag : Flag} {letter : Char} (h : flag.letter? = some letter)
    (text : List Char) :
    of (String.ofList ('-' :: letter :: text)) = .option flag (attached? text) := by
  cases flag <;> cases h <;> rw [of, String.toList_ofList] <;> rfl

namespace Arguments

variable {flag : Flag} {arg path text : String} {rest : List String}

/-! ## Reading a setting -/

/-- An option is not the mark after which all arguments are paths. -/
theorem ne_mark_of_option {attached : Option String} (h : Argument.of arg = .option flag attached) :
    arg ≠ "--" := by
  rintro rfl
  cases h

/-- An option with its value is read as a setting. -/
theorem read_attached (a : Arguments) (h : Argument.of arg = .option flag (some text))
    (rest : List String) :
    a.read (arg :: rest) = a.take (.option flag text) >>= fun b => b.read rest := by
  rw [read, if_neg (ne_mark_of_option h), h]
  rfl

/-- An option without a value takes the next argument, if that may be its value. -/
theorem read_apart (a : Arguments) (h : Argument.of arg = .option flag none)
    (htakes : flag.takes text = true) (rest : List String) :
    a.read (arg :: text :: rest) = a.take (.option flag text) >>= fun b => b.read rest := by
  rw [read, if_neg (ne_mark_of_option h), h]
  simp only [htakes, if_true]
  rfl

/-- If the next argument may not be its value, the command line makes no sense. -/
theorem read_apart_of_not_takes (a : Arguments) (h : Argument.of arg = .option flag none)
    (htakes : flag.takes text = false) (rest : List String) :
    a.read (arg :: text :: rest) = .error .invalid := by
  rw [read, if_neg (ne_mark_of_option h), h]
  simp [htakes]

/-- A path that does not look like an option is read as the script. -/
theorem read_script (a : Arguments) (h : looksLikeOption path = false) (rest : List String) :
    a.read (path :: rest) = a.take (.script path) >>= fun b => b.read rest := by
  have hmark : path ≠ "--" := by
    rintro rfl
    cases h
  -- What does not look like an option is not analysed as one.
  have hof : Argument.of path = .script path := by
    unfold looksLikeOption at h
    unfold Argument.of
    split at h
    · cases h
    · rename_i hshort
      split
      · exact absurd ‹_› (hshort _ _)
      · exact absurd ‹_› (hshort _ _)
      · rfl
  rw [read, if_neg hmark, hof]
  rfl

/-- Arguments that give a value to an option are read as the setting or make no sense. -/
theorem read_gives {extra : List String} (h : flag.Gives extra) (rest : List String) :
    (∃ text, ∀ a : Arguments, a.read (extra ++ rest) =
      a.take (.option flag text) >>= fun b => b.read rest) ∨
    ∀ a : Arguments, a.read (extra ++ rest) = .error .invalid := by
  -- A value that is an argument of its own may look like an option.
  have hapart {arg : String} (text : String) (harg : Argument.of arg = .option flag none) :
      (∃ value, ∀ a : Arguments, a.read ([arg, text] ++ rest) =
        a.take (.option flag value) >>= fun b => b.read rest) ∨
      ∀ a : Arguments, a.read ([arg, text] ++ rest) = .error .invalid := by
    cases htakes : flag.takes text with
    | true => exact .inl ⟨text, fun a => a.read_apart harg htakes rest⟩
    | false => exact .inr fun a => a.read_apart_of_not_takes harg htakes rest
  -- The four forms: the text of an attached value is read as it is, and one that stands apart may
  -- be refused.
  cases h with
  | long text => exact .inl ⟨text, fun a => a.read_attached (Argument.of_attached flag text) rest⟩
  | longApart text => exact hapart text (Argument.of_name flag)
  | @short letter text hletter hne =>
    -- The text after the letter is not empty, so it is the value, with or without an equals sign.
    obtain ⟨value, hvalue⟩ : ∃ value, attached? text = some value := by
      unfold attached?
      split
      · contradiction
      · exact ⟨_, rfl⟩
      · exact ⟨_, rfl⟩
    have harg := hvalue ▸ Argument.of_letter hletter text
    exact .inl ⟨value, fun a => a.read_attached harg rest⟩
  | shortApart text hletter => exact hapart text (Argument.of_letter hletter [])

/-- A script is read as the setting, or, after `--`, makes no sense if anything else follows it. -/
theorem read_namesScript {extra : List String} (h : NamesScript extra) (rest : List String) :
    (∃ path, ∀ a : Arguments, a.read (extra ++ rest) =
      a.take (.script path) >>= fun b => b.read rest) ∨
    ∀ a : Arguments, a.read (extra ++ rest) = .error .invalid := by
  cases h with
  | @plain path hpath => exact .inl ⟨path, fun a => a.read_script hpath rest⟩
  | afterMark path =>
    cases rest with
    | nil => exact .inl ⟨path, fun a => rfl⟩
    | cons other rest =>
      -- The next argument is a path as well, and one too many.
      refine .inr fun a => ?_
      show (do (← a.setScript path).setScript other >>= fun b => rest.foldlM setScript b) = _
      unfold setScript
      split
      · rfl
      · simp [bind, Except.bind]

end Arguments

end Fish.CommandLine
