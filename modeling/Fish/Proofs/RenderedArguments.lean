import Fish.Proofs.PositionalText
import Fish.Proofs.Settings
import Mathlib.Data.List.Forall2

/-!
# Command lines read back

A line that writes out what arguments say is read as these arguments, whatever the order of its
settings is; and a setting that is added to such a line can be moved to the end of it, where its
part of the arguments is taken.

A text that is attached to its option is never looked at. A number that follows its option is an
argument of its own, which may begin with a minus; it is taken because the text of a number is an
optional minus, digits, and a point with further digits, and nothing else.

Main lemmas:

* `Flag.takes_text`              a number may be an argument of its own
* `Arguments.takeAll_settings`   the settings that stand for arguments give the arguments
* `Arguments.read_pieces`        a line is read one setting after the other
* `Arguments.read_insert`        what is added to it is read as if it stood at the end
* `Arguments.parse_rendered`     what is written out is read back, and nothing can be added to it
-/

namespace Fish.CommandLine

open Numeral

/-! ## Numbers as arguments -/

/-- Digits with a point among them are a number, since they are followed by nothing else. -/
theorem isUnsignedNumber_of_plain {negative : Bool} {whole places : List Char}
    (h : Plain negative whole places) :
    isUnsignedNumber (whole ++ if places = [] then [] else '.' :: places) = true := by
  have hdrop (tail : List Char) (htail : ∀ c ∈ tail.head?, c.isDigit = false) :
      (whole ++ tail).dropWhile Char.isDigit = tail :=
    congrArg Prod.snd (splitDigits_append h.whole_digits htail)
  by_cases hplaces : places = []
  · rw [if_pos hplaces, isUnsignedNumber, hdrop [] nofun]
  · have hrest : places.dropWhile Char.isDigit = [] :=
      List.dropWhile_eq_nil_iff.2 h.places_digits
    -- The digits of the whole part end at the point, and those after it at the end.
    have hpoint : ∀ c ∈ ('.' :: places).head?, c.isDigit = false := by
      rintro c ⟨⟩
      rfl
    have hlength : ('.' :: places).length < (whole ++ '.' :: places).length := by
      have := List.length_pos_iff.2 h.whole_ne_nil
      rw [List.length_append]
      omega
    rw [if_neg hplaces, isUnsignedNumber, hdrop _ hpoint]
    simp only [if_pos hlength, hrest]

/-- The text of a finite value may be an argument of its own after the option for numbers. -/
theorem Flag.takes_text {v : Binary64} (h : v.isFinite = true) :
    Flag.value.takes v.text = true := by
  cases v with
  | nan => cases h
  | infinite => cases h
  | finite negative units hunits =>
    obtain ⟨whole, places, htext, hplain, -⟩ := Binary64.exists_positional negative hunits
    generalize (negative && units ≠ 0) = minus at htext hplain
    obtain ⟨c, cs, rfl⟩ := List.exists_cons_of_ne_nil hplain.whole_ne_nil
    have hwhole := hplain.whole_digits
    cases minus with
    | false =>
      -- Without a minus the text begins with a digit.
      have hc : c ≠ '-' := (ne_sign_of_isDigit (hwhole c List.mem_cons_self)).2
      have hlook : looksLikeOption (Binary64.finite negative units hunits).text = false := by
        rw [looksLikeOption, htext]
        simp [positional, hc]
      rw [takes, hlook]
      rfl
    | true =>
      -- With one it has the look of an option, but also that of a negative number.
      have hnumber : isNegativeNumber (Binary64.finite negative units hunits).text = true := by
        rw [isNegativeNumber, htext]
        exact isUnsignedNumber_of_plain hplain
      simp [takes, hnumber]

/-- The digits of a natural number are read as the number, if it fits. -/
theorem natural?_repr {n : Nat} (h : n < UInt64.size) : natural? n.repr = some n := by
  have hdigits : ∀ c ∈ Nat.toDigits 10 n, c.isDigit = true := fun c hc =>
    Nat.isDigit_of_mem_toDigits (by decide) (by decide) hc
  have hn : natOfDigits (Nat.toDigits 10 n) = n := natOfDigits_toDigits n
  obtain ⟨c, cs, hcs⟩ := List.exists_cons_of_ne_nil (Nat.toDigits_ne_nil (b := 10) (n := n))
  rw [hcs] at hdigits hn
  -- The first digit is no sign.
  have hc : c ≠ '+' := (ne_sign_of_isDigit (hdigits c List.mem_cons_self)).1
  simpa [natural?, Nat.toList_repr, hcs, hc, hn, h] using hdigits

namespace Arguments

variable {a : Arguments} {order before after : List Setting} {pieces : List (List String)}

/-! ## Rendered lines -/

/-- The settings that stand for the arguments, the numbers last; a script is none of them. -/
def settings (a : Arguments) : List Setting :=
  a.code.toList.map (.option .code ·) ++ (a.string.toList.map (.option .string ·) ++
    (a.seed.toList.map (fun n => .option .seed n.toNat.repr) ++
      (a.maxSteps.toList.map (fun n => .option .maxSteps n.repr) ++
        a.values.map (fun v => .option .value v.text))))

/-- Numbers are added to those that are there. -/
theorem takeAll_values {values : List Binary64}
    (h : ∀ v ∈ values, v.isFinite = true ∧ v ≠ (Binary64.ofNat 0).neg) :
    takeAll (.ok a) (values.map (fun v => .option .value v.text)) =
      .ok { a with values := a.values ++ values } := by
  induction values generalizing a with
  | nil => simp [takeAll]
  | cons v values ih =>
    obtain ⟨⟨hfinite, hsign⟩, hothers⟩ := List.forall_mem_cons.1 h
    -- The text of a number is read as the number, since it is finite and no negative zero.
    have htake : a.take (.option .value v.text) = .ok { a with values := a.values ++ [v] } := by
      have hread : Binary64.ofText? v.text = some v := by
        rw [Binary64.ofText?_text hfinite, Binary64.unsignedZero_eq_self hsign]
      simp [take, set, hread]
    rw [List.map_cons, takeAll_cons]
    show takeAll (a.take (.option .value v.text)) _ = _
    rw [htake, ih hothers]
    simp

/-- The settings that stand for arguments give the arguments. -/
theorem takeAll_settings (hscript : a.script = none)
    (hvalues : ∀ v ∈ a.values, v.isFinite = true ∧ v ≠ (Binary64.ofNat 0).neg)
    (hsteps : ∀ n ∈ a.maxSteps, n < UInt64.size) : takeAll (.ok {}) a.settings = .ok a := by
  obtain ⟨script, code, string, values, seed, maxSteps⟩ := a
  obtain rfl : script = none := hscript
  -- Each option finds its part of the arguments still empty, so its setting is taken.
  have hcode : takeAll (.ok {}) (code.toList.map (.option .code ·)) = .ok { code } := by
    cases code <;> rfl
  have hstring : takeAll (.ok { code }) (string.toList.map (.option .string ·)) =
      .ok { code, string } := by
    cases string <;> rfl
  have hseed : takeAll (.ok { code, string })
      (seed.toList.map (fun n => .option .seed n.toNat.repr)) =
      .ok { code, string, seed } := by
    cases seed with
    | none => rfl
    | some n =>
      show ({ code, string } : Arguments).take (.option .seed n.toNat.repr) = _
      simp [take, set, natural?_repr n.toNat_lt]
  have hmaxSteps : takeAll (.ok { code, string, seed })
      (maxSteps.toList.map (fun n => .option .maxSteps n.repr)) =
      .ok { code, string, seed, maxSteps } := by
    cases maxSteps with
    | none => rfl
    | some n =>
      show ({ code, string, seed } : Arguments).take (.option .maxSteps n.repr) = _
      simp [take, set, natural?_repr (hsteps n rfl)]
  rw [settings, takeAll_append, hcode, takeAll_append, hstring, takeAll_append, hseed,
    takeAll_append, hmaxSteps, takeAll_values hvalues]
  rfl

/-- A line that writes settings out is read one setting after the other. -/
theorem read_pieces (hpieces : List.Forall₂ Setting.Writes order pieces)
    (htakes : ∀ text, .option .value text ∈ order → Flag.value.takes text = true)
    (r : Except Refusal Arguments) (rest : List String) :
    (r >>= fun a => a.read (pieces.flatten ++ rest)) =
      takeAll r order >>= fun a => a.read rest := by
  induction hpieces generalizing r with
  | nil => rfl
  | @cons s piece order pieces hpiece _ ih =>
    -- A piece is read as its setting in either form; a text apart must be one that its option
    -- takes.
    have hread (a : Arguments) (rest : List String) :
        a.read (piece ++ rest) = a.take s >>= fun b => b.read rest := by
      cases hpiece with
      | attached flag text => exact a.read_attached (Argument.of_attached flag text) rest
      | apart text => exact a.read_apart rfl (htakes text List.mem_cons_self) rest
    have hothers : ∀ text, .option .value text ∈ order → Flag.value.takes text = true :=
      fun text htext => htakes text (List.mem_cons_of_mem _ htext)
    simp only [List.flatten_cons, List.append_assoc, hread]
    rw [← bind_assoc, takeAll_cons]
    exact ih hothers _

/-- The arguments can be written out: the program is a text, the numbers are finite and none of them
    is a negative zero, and the number of steps fits into 64 bits. -/
structure Renderable (a : Arguments) : Prop where
  script : a.script = none
  code : a.code.isSome = true
  values : ∀ v ∈ a.values, v.isFinite = true ∧ v ≠ (Binary64.ofNat 0).neg
  maxSteps : ∀ n ∈ a.maxSteps, n < UInt64.size

/-- The pieces of a line write out what the arguments say, in any order that keeps that of the
    numbers. -/
def Renders (a : Arguments) (pieces : List (List String)) : Prop :=
  ∃ order : List Setting, order.Perm a.settings ∧
    order.filter (·.isNumber) = a.settings.filter (·.isNumber) ∧
    List.Forall₂ Setting.Writes order pieces

/-- The numbers of arguments that can be written out may be arguments of their own. -/
theorem Renderable.takes (ha : a.Renderable) {text : String}
    (h : .option .value text ∈ a.settings) : Flag.value.takes text = true := by
  obtain ⟨v, hv, rfl⟩ : ∃ v ∈ a.values, v.text = text := by
    simpa [settings] using h
  exact Flag.takes_text (ha.values v hv).1

/-- What is added to a line that writes out arguments is read as if it stood at the end. -/
theorem read_insert {s : Setting} {extra : List String} (hs : s.isNumber = false)
    (horder : takeAll (.ok {}) (before ++ after) = .ok a)
    (htakes : ∀ text, .option .value text ∈ before ++ after → Flag.value.takes text = true)
    {front back : List (List String)} (hfront : List.Forall₂ Setting.Writes before front)
    (hback : List.Forall₂ Setting.Writes after back)
    (hextra : ∀ a : Arguments, a.read (extra ++ back.flatten) =
      a.take s >>= fun b => b.read back.flatten) :
    read {} (front.flatten ++ (extra ++ back.flatten)) = a.take s := by
  have hread := read_pieces hfront (fun text h => htakes text (List.mem_append_left _ h)) (.ok {})
    (extra ++ back.flatten)
  have hrest := read_pieces hback (fun text h => htakes text (List.mem_append_right _ h))
    (takeAll (.ok {}) before >>= fun b => b.take s) []
  -- A setting that is no number can be taken after those that follow it as well.
  have hall : takeAll (takeAll (.ok {}) before >>= fun b => b.take s) after = a.take s := by
    rw [takeAll_take fun t _ => .inl hs, ← takeAll_append, horder]
    rfl
  calc read {} (front.flatten ++ (extra ++ back.flatten))
      = takeAll (.ok {}) before >>= fun b => b.read (extra ++ back.flatten) := hread
    _ = (takeAll (.ok {}) before >>= fun b => b.take s) >>= fun b => b.read back.flatten := by
      simp only [hextra, bind_assoc]
    _ = a.take s >>= fun b => b.read [] := by
      rw [List.append_nil, hall] at hrest
      exact hrest
    _ = a.take s := bind_pure _

/-- What makes no sense where it is read rejects the line. -/
theorem read_insert_invalid {extra rest : List String}
    (htakes : ∀ text, .option .value text ∈ before → Flag.value.takes text = true)
    (hpieces : List.Forall₂ Setting.Writes before pieces)
    (hextra : ∀ a : Arguments, a.read (extra ++ rest) = .error .invalid) :
    read {} (pieces.flatten ++ (extra ++ rest)) = .error .invalid := by
  have hread := read_pieces hpieces htakes (.ok {}) (extra ++ rest)
  simp only [hextra] at hread
  refine Eq.trans hread ?_
  -- The line is rejected for what was read before, or else for this.
  cases htake : takeAll (.ok {}) before with
  | ok b => rfl
  | error refusal => exact congrArg Except.error (takeAll_eq_error htake)

/-- An option that has a value is not given another one. -/
theorem take_of_mem_settings {flag : Flag} {text : String} (hflag : flag ≠ .value)
    (h : .option flag text ∈ a.settings) (other : String) :
    a.take (.option flag other) = .error .invalid := by
  -- The setting shows that this part of the arguments is there already.
  cases flag with
  | value => contradiction
  | code =>
    have hcode : a.code = some text := by simpa [settings] using h
    simp [take, set, hcode]
  | string =>
    have hstring : a.string = some text := by simpa [settings] using h
    simp [take, set, hstring]
  | seed =>
    obtain ⟨n, hseed, -⟩ : ∃ n, a.seed = some n ∧ n.toNat.repr = text := by
      simpa [settings] using h
    simp only [take, set, hseed]
    split <;> rfl
  | maxSteps =>
    obtain ⟨n, hsteps, -⟩ : ∃ n, a.maxSteps = some n ∧ n.repr = text := by
      simpa [settings] using h
    simp only [take, set, hsteps]
    split <;> rfl

/-- Arguments that were read need one program. -/
theorem parse_of_read {args : List String} (h : read {} args = .ok a) :
    parse args = if a.hasOneProgram then .ok a else .error .invalid := by
  rw [parse, h]
  rfl

/-- A line that is not read is not parsed. -/
theorem parse_of_read_error {args : List String} {refusal : Refusal}
    (h : read {} args = .error refusal) : parse args = .error refusal := by
  rw [parse, h]
  rfl

/-- A line that names a script besides the text of a program is rejected. -/
theorem parse_of_read_script {args : List String} {path : String} (hcode : a.code.isSome = true)
    (h : read {} args = a.take (.script path)) : parse args = .error .invalid := by
  have htake : a.take (.script path) = a.setScript path := rfl
  rw [htake, setScript] at h
  split at h
  · exact parse_of_read_error h
  · rw [parse_of_read h]
    simp [hasOneProgram, hcode]

/-- A line that writes arguments out is read as these arguments. If anywhere in it another value is
    given to one of its options, the one for numbers aside, or a script is named, in whatever form,
    then it is rejected. -/
theorem parse_rendered (ha : a.Renderable) (hpieces : a.Renders pieces) :
    parse pieces.flatten = .ok a ∧
    ∀ front back, pieces = front ++ back → ∀ extra,
      (∃ flag text, flag ≠ .value ∧ .option flag text ∈ a.settings ∧ flag.Gives extra) ∨
        NamesScript extra →
      parse (front.flatten ++ (extra ++ back.flatten)) = .error .invalid := by
  obtain ⟨order, hperm, hkeep, hwrites⟩ := hpieces
  have hsettings := takeAll_settings ha.script ha.values ha.maxSteps
  have horder : takeAll (.ok {}) order = .ok a := (takeAll_of_perm hperm hkeep).trans hsettings
  have htakes : ∀ text, .option .value text ∈ order → Flag.value.takes text = true :=
    fun text h => ha.takes (hperm.subset h)
  constructor
  · have hread := read_pieces hwrites htakes (.ok {}) []
    rw [horder, List.append_nil] at hread
    have hone : a.hasOneProgram = true := by simp [hasOneProgram, ha.script, ha.code]
    rw [parse_of_read hread, if_pos hone]
  · rintro front back rfl extra hextra
    -- The order is divided where the line is.
    obtain ⟨before, after, rfl, hfront, hback⟩ : ∃ before after, order = before ++ after ∧
        List.Forall₂ Setting.Writes before front ∧ List.Forall₂ Setting.Writes after back :=
      ⟨_, _, (List.take_append_drop front.length order).symm,
        List.forall₂_take_append _ _ _ hwrites, List.forall₂_drop_append _ _ _ hwrites⟩
    have hinvalid (hread : ∀ a : Arguments, a.read (extra ++ back.flatten) = .error .invalid) :
        parse (front.flatten ++ (extra ++ back.flatten)) = .error .invalid :=
      parse_of_read_error (read_insert_invalid
        (fun text h => htakes text (List.mem_append_left _ h)) hfront hread)
    -- What is added is a setting, which can be moved to the end, or it is invalid where it stands.
    rcases hextra with ⟨flag, text, hflag, hmem, hgives⟩ | hscript
    · obtain ⟨other, hread⟩ | hread := read_gives hgives back.flatten
      · have hnumber : (Setting.option flag other).isNumber = false := by
          cases flag <;> first | rfl | contradiction
        have htake := read_insert hnumber horder htakes hfront hback hread
        rw [take_of_mem_settings hflag hmem] at htake
        exact parse_of_read_error htake
      · exact hinvalid hread
    · obtain ⟨path, hread⟩ | hread := read_namesScript hscript back.flatten
      · exact parse_of_read_script ha.code (read_insert rfl horder htakes hfront hback hread)
      · exact hinvalid hread

/-- A line with a negative number on its own and a program that looks like an option, and what it
    becomes with a second program after it or a path within it. -/
theorem parse_rendered_of_negative_number :
    let a : Arguments :=
      { code := some "--seed=1", values := [.ofRatio true (Nat.pow 2 1073) 1, .ofNat 2] }
    parse ["-v", "-0.5", "--code=--seed=1", "--value=2"] = .ok a ∧
      parse ["-v", "-0.5", "--code=--seed=1", "--value=2", "-c", ""] = .error .invalid ∧
      parse ["-v", "-0.5", "path", "--code=--seed=1", "--value=2"] = .error .invalid := by
  intro a
  have hhalf : (Binary64.ofRatio true (Nat.pow 2 1073) 1).text = "-0.5" := by decide +kernel
  have htwo : (Binary64.ofNat 2).text = "2" := by decide +kernel
  have hsettings : a.settings =
      [.option .code "--seed=1", .option .value "-0.5", .option .value "2"] := by
    rw [← hhalf, ← htwo]
    rfl
  have ha : a.Renderable := ⟨rfl, rfl, by decide +kernel, nofun⟩
  -- The line has a number before the program, and the settings have the program first.
  have hrenders : a.Renders [["-v", "-0.5"], ["--code=--seed=1"], ["--value=2"]] := by
    refine ⟨[.option .value "-0.5", .option .code "--seed=1", .option .value "2"], ?_, ?_, ?_⟩
    · rw [hsettings]
      decide
    · rw [hsettings]
      rfl
    · exact .cons (.apart _) (.cons (.attached .code "--seed=1")
        (.cons (.attached .value "2") .nil))
  obtain ⟨hread, hrejects⟩ := parse_rendered ha hrenders
  refine ⟨hread, ?_, ?_⟩
  · have hcode : .option .code "--seed=1" ∈ a.settings := by simp [hsettings]
    exact hrejects [["-v", "-0.5"], ["--code=--seed=1"], ["--value=2"]] [] rfl ["-c", ""]
      (.inl ⟨.code, _, nofun, hcode, .shortApart "" rfl⟩)
  · exact hrejects [["-v", "-0.5"]] [["--code=--seed=1"], ["--value=2"]] rfl ["path"]
      (.inr (.plain (by decide)))

end Arguments

end Fish.CommandLine
