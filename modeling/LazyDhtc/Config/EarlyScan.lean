-- SUMMARY: The scan for the configuration file before the flags are parsed, and the command lines on which it disagrees with the parse.
import LazyDhtc.Config.Precedence
import Mathlib.Data.Nat.Find

/-!
# The early scan

`argumentValue` looks for the file before any flag is registered. It takes the first argument
that looks like a flag `-config` with one dash, wherever it stands. The parse takes the last
flag, with one dash or two, and knows which arguments are values and where the flags end.
-/

namespace Config

open Flags Unicode

/-! ## The scan -/

/-- The text of a flag `-config`, if the arguments begin like one that has a text. -/
def lookalike : List Bytes → Option Bytes
  | [] => none
  | arg :: args =>
    if hasPrefix arg (ascii "-config=") then some (arg.drop 8)
    else if arg = ascii "-config" then args.head?
    else none

/-- The argument with the index `n` is the first that looks like a flag `-config`. -/
structure FirstLook (args : List Bytes) (n : Nat) (text : Bytes) : Prop where
  before : ∀ i < n, lookalike (args.drop i) = none
  look : lookalike (args.drop n) = some text

theorem argumentValue_cons (arg : Bytes) (args : List Bytes) :
    argumentValue (ascii "config") (arg :: args) =
      (lookalike (arg :: args)).getD (argumentValue (ascii "config") args) := by
  have hjoined : ascii "-" ++ ascii "config" ++ ascii "=" = ascii "-config=" := rfl
  have hapart : ascii "-" ++ ascii "config" = ascii "-config" := rfl
  have hlength : (ascii "-config=").length = 8 := rfl
  rw [argumentValue.eq_def, lookalike]
  dsimp only
  rw [hjoined, hapart, hlength]
  split
  · rfl
  · split
    · cases args <;> rfl
    · rfl

theorem argumentValue_of_none {args : List Bytes} (h : ∀ i, lookalike (args.drop i) = none) :
    argumentValue (ascii "config") args = [] := by
  induction args with
  | nil => rfl
  | cons arg args ih =>
    have hhead : lookalike (arg :: args) = none := h 0
    rw [argumentValue_cons, hhead]
    exact ih fun i => h (i + 1)

theorem FirstLook.argumentValue_eq {args : List Bytes} {n : Nat} {text : Bytes}
    (h : FirstLook args n text) : argumentValue (ascii "config") args = text := by
  induction args generalizing n with
  | nil =>
    have hlook := h.look
    rw [List.drop_nil] at hlook
    cases hlook
  | cons arg args ih =>
    rw [argumentValue_cons]
    cases n with
    | zero =>
      have hlook : lookalike (arg :: args) = some text := h.look
      rw [hlook]
      rfl
    | succ n =>
      have hhead : lookalike (arg :: args) = none := h.before 0 n.succ_pos
      rw [hhead]
      exact ih ⟨fun i hi => h.before (i + 1) (Nat.succ_lt_succ hi), h.look⟩

theorem first_or_none (args : List Bytes) :
    (∃ n text, FirstLook args n text) ∨ ∀ i, lookalike (args.drop i) = none := by
  by_cases h : ∃ i, lookalike (args.drop i) ≠ none
  · obtain ⟨text, htext⟩ := Option.ne_none_iff_exists'.1 (Nat.find_spec h)
    exact .inl ⟨Nat.find h, text, fun i hi => not_not.1 (Nat.find_min h hi), htext⟩
  · exact .inr fun i => not_not.1 fun hi => h ⟨i, hi⟩

/-! ## The flag -/

def configFlag (configFile : Bytes) : Flag Configuration :=
  stringVar (ascii "config") (fun x c => { c with configFile := x }) fun _ => configFile

theorem configFlag_owns (env : Environment) (configFile : Bytes) :
    Owns (configFlags env configFile) (configFlag configFile) Configuration.configFile
      (fun _ => configFile) some where
  mem := List.mem_of_getElem? (i := 31) rfl
  nodup := configFlags_nodup env configFile
  writes := @stringVar_writes Configuration Configuration.configFile (ascii "config")
    (fun x c => { c with configFile := x }) (fun _ => configFile) fun _ _ => rfl
  leaves := by
    simp only [configFlags, List.forall_mem_cons]
    and_intros
    all_goals first
      | exact fun _ => stringVar_leaves fun _ _ => rfl
      | exact fun _ => readVar_leaves fun _ _ => rfl
      | exact fun _ => boolVar_leaves fun _ _ => rfl
      | exact fun hne => absurd rfl hne
      | exact fun g hg => (List.not_mem_nil hg).elim

/-- A flag that is spelled with two dashes. -/
def TwoDashes (o : Occurrence Configuration) : Prop := ∃ arg ∈ o.args.head?, [45, 45] <+: arg

theorem lookalike_of_twoDashes {o : Occurrence Configuration} (h : TwoDashes o)
    (rest : List Bytes) : lookalike (o.args ++ rest) = none := by
  obtain ⟨arg, harg, t, rfl⟩ := h
  obtain ⟨more, hmore⟩ := List.head?_eq_some_iff.1 harg
  have hpre : hasPrefix ([45, 45] ++ t) (ascii "-config=") = false := rfl
  have hne : [45, 45] ++ t ≠ ascii "-config" := by
    intro heq
    injection heq with _ heq
    injection heq with heq _
    exact absurd heq (by decide)
  rw [hmore, List.cons_append, lookalike, hpre, if_neg hne]
  rfl

/-- With one dash a flag for the file looks like what it is. -/
theorem lookalike_of_valued {o : Occurrence Configuration} (hname : o.flag.name = ascii "config")
    (h : o.Valued) (rest : List Bytes) :
    TwoDashes o ∨ lookalike (o.args ++ rest) = some o.text := by
  cases h with
  | @joined arg hargs htoken =>
    rw [hname] at htoken
    rcases token_flag htoken with htwo | rfl
    · exact .inl ⟨arg, by rw [hargs]; rfl, htwo⟩
    · refine .inr ?_
      rw [hargs]
      rfl
  | @apart arg hargs htoken =>
    rw [hname] at htoken
    rcases token_flag htoken with htwo | rfl
    · exact .inl ⟨arg, by rw [hargs]; rfl, htwo⟩
    · refine .inr ?_
      rw [hargs]
      rfl

section

variable {env : Environment} {s c : Configuration} {rest : List Bytes}
  {os pre post : List (Occurrence Configuration)} {o : Occurrence Configuration}

theorem valued_of_named (hos : occurrences (configFlags env []) env.args = some (os, rest))
    (ho : o ∈ os) (hname : o.flag.name = ascii "config") : o.Valued := by
  obtain ⟨hmem, hvalued⟩ := (occurrences_spec hos).2 o ho
  have hflag : o.flag = configFlag [] := (configFlag_owns env []).eq_of_name hmem hname
  refine hvalued ?_
  rw [hflag]
  rfl

/-- Where a flag for the file stands, the scan sees two dashes or the text of the flag. -/
theorem lookalike_place (hos : occurrences (configFlags env []) env.args = some (os, rest))
    (hsplit : os = pre ++ o :: post) (hname : o.flag.name = ascii "config") :
    (TwoDashes o ∧
      lookalike (env.args.drop (pre.flatMap Occurrence.args).length) = none) ∨
    lookalike (env.args.drop (pre.flatMap Occurrence.args).length) = some o.text := by
  have hmem : o ∈ os := by
    rw [hsplit]
    exact List.mem_append_right _ List.mem_cons_self
  rw [drop_place (occurrences_spec hos).1 hsplit]
  rcases lookalike_of_valued hname (valued_of_named hos hmem hname) _ with htwo | hone
  · exact .inl ⟨htwo, lookalike_of_twoDashes htwo _⟩
  · exact .inr hone

theorem configFile_of_last
    (h : parse (configFlags env []) env.args (register (configFlags env []) s) = some c)
    (hos : occurrences (configFlags env []) env.args = some (os, rest))
    (hlast : LastOccurrence (ascii "config") os pre o) : c.configFile = o.text := by
  have hfile := (configFlag_owns env []).get_parse h
  have hgiven : given (configFlags env []) env.args (configFlag []).name = some o.text :=
    hlast.given_eq hos
  rw [hgiven] at hfile
  exact (Option.some.inj hfile).symm

theorem configFile_of_none
    (h : parse (configFlags env []) env.args (register (configFlags env []) s) = some c)
    (hos : occurrences (configFlags env []) env.args = some (os, rest))
    (hnone : ∀ o ∈ os, o.flag.name ≠ ascii "config") : c.configFile = [] := by
  have hfile := (configFlag_owns env []).get_parse h
  have hgiven : given (configFlags env []) env.args (configFlag []).name = none :=
    given_of_none hnone hos
  rw [hgiven] at hfile
  exact hfile

end

/-! ## Disagreement -/

/-- The argument with the index `n` is where a flag for the file begins. -/
def FlagAt (os : List (Occurrence Configuration)) (n : Nat) : Prop :=
  ∃ pre o post, os = pre ++ o :: post ∧ o.flag.name = ascii "config" ∧
    n = (pre.flatMap Occurrence.args).length

/-- The ways in which the scan misses the file of the parse. -/
inductive Misread (args : List Bytes) (os : List (Occurrence Configuration)) : Prop where
  /-- The scan stops at a flag, and a later one sets another text. -/
  | overridden {pre later mid : List (Occurrence Configuration)}
      {o o' : Occurrence Configuration} :
      os = pre ++ o :: later → o.flag.name = ascii "config" →
      FirstLook args (pre.flatMap Occurrence.args).length o.text →
      LastOccurrence (ascii "config") later mid o' → o'.text ≠ o.text → Misread args os
  /-- The scan stops at the value of a flag or after the flags, and a flag sets another
      text. -/
  | misled {n : Nat} {text : Bytes} {pre : List (Occurrence Configuration)}
      {o : Occurrence Configuration} :
      FirstLook args n text → ¬ FlagAt os n →
      LastOccurrence (ascii "config") os pre o → o.text ≠ text → Misread args os
  /-- The scan stops there, and there is no flag. -/
  | invented {n : Nat} {text : Bytes} :
      FirstLook args n text → (∀ o ∈ os, o.flag.name ≠ ascii "config") → text ≠ [] →
      Misread args os
  /-- The scan does not stop, because all flags have two dashes. -/
  | unseen {pre : List (Occurrence Configuration)} {o : Occurrence Configuration} :
      (∀ i, lookalike (args.drop i) = none) →
      (∀ a ∈ os, a.flag.name = ascii "config" → TwoDashes a) →
      LastOccurrence (ascii "config") os pre o → o.text ≠ [] → Misread args os

section

variable {env : Environment} {s c : Configuration} {rest : List Bytes}
  {os : List (Occurrence Configuration)}

theorem Misread.disagrees
    (h : parse (configFlags env []) env.args (register (configFlags env []) s) = some c)
    (hos : occurrences (configFlags env []) env.args = some (os, rest))
    (hmisread : Misread env.args os) :
    argumentValue (ascii "config") env.args ≠ c.configFile := by
  cases hmisread with
  | @overridden pre later mid o o' hsplit hname hfirst hlast hne =>
    have hlater := (hlast.append [o]).append pre
    rw [List.singleton_append, ← hsplit] at hlater
    rw [hfirst.argumentValue_eq, configFile_of_last h hos hlater]
    exact hne.symm
  | misled hfirst _ hlast hne =>
    rw [hfirst.argumentValue_eq, configFile_of_last h hos hlast]
    exact hne.symm
  | invented hfirst hnone hne =>
    rw [hfirst.argumentValue_eq, configFile_of_none h hos hnone]
    exact hne
  | unseen hnever _ hlast hne =>
    rw [argumentValue_of_none hnever, configFile_of_last h hos hlast]
    exact hne.symm

/-- A line is misread wherever scan and parse disagree. -/
theorem misread_of_disagrees
    (h : parse (configFlags env []) env.args (register (configFlags env []) s) = some c)
    (hos : occurrences (configFlags env []) env.args = some (os, rest))
    (hne : argumentValue (ascii "config") env.args ≠ c.configFile) : Misread env.args os := by
  rcases first_or_none env.args with ⟨n, text, hfirst⟩ | hnever
  · rw [hfirst.argumentValue_eq] at hne
    by_cases hplace : FlagAt os n
    · obtain ⟨pre, o, later, hsplit, hname, rfl⟩ := hplace
      -- the scan stops at a flag of one dash, and its text is what it takes
      have htext : o.text = text := by
        rcases lookalike_place hos hsplit hname with ⟨-, hlook⟩ | hlook
        · cases hlook.symm.trans hfirst.look
        · exact Option.some.inj (hlook.symm.trans hfirst.look)
      subst htext
      rcases last_or_none (ascii "config") later with ⟨mid, o', hlast⟩ | hnone
      · have hlater := (hlast.append [o]).append pre
        rw [List.singleton_append, ← hsplit] at hlater
        rw [configFile_of_last h hos hlater] at hne
        exact .overridden hsplit hname hfirst hlast hne.symm
      · exact (hne (configFile_of_last h hos ⟨hname, later, hsplit, hnone⟩).symm).elim
    · rcases last_or_none (ascii "config") os with ⟨pre, o, hlast⟩ | hnone
      · rw [configFile_of_last h hos hlast] at hne
        exact .misled hfirst hplace hlast hne.symm
      · rw [configFile_of_none h hos hnone] at hne
        exact .invented hfirst hnone hne
  · rw [argumentValue_of_none hnever] at hne
    rcases last_or_none (ascii "config") os with ⟨pre, o, hlast⟩ | hnone
    · rw [configFile_of_last h hos hlast] at hne
      refine .unseen hnever (fun a ha hname => ?_) hlast hne.symm
      obtain ⟨before, later, hsplit⟩ := List.append_of_mem ha
      rcases lookalike_place hos hsplit hname with ⟨htwo, -⟩ | hlook
      · exact htwo
      · cases (hnever _).symm.trans hlook
    · exact (hne (configFile_of_none h hos hnone).symm).elim

end

/-- On a command line that the parse accepts, the scan returns the file that the parse
    leaves, from an empty default, if and only if the line is not misread. -/
theorem argumentValue_agrees_iff {env : Environment} {s c : Configuration}
    (h : parse (configFlags env []) env.args (register (configFlags env []) s) = some c) :
    ∃ os rest, occurrences (configFlags env []) env.args = some (os, rest) ∧
      (argumentValue (ascii "config") env.args = c.configFile ↔ ¬ Misread env.args os) := by
  have hparse := h
  rw [parse_eq, assignments_eq] at hparse
  obtain ⟨_, hassigned, -⟩ := Option.bind_eq_some_iff.1 hparse
  obtain ⟨⟨os, rest⟩, hos, -⟩ := Option.map_eq_some_iff.1 hassigned
  refine ⟨os, rest, hos, fun hagrees hmisread => hmisread.disagrees h hos hagrees, ?_⟩
  intro hnot
  by_contra hne
  exact hnot (misread_of_disagrees h hos hne)

/-! ## Two dashes -/

/-- The command line `--config dhtc.yml`. -/
def twoDashesLine : Environment := process [ascii "--config", ascii "dhtc.yml"] [] {}

/-- The command line `-config dhtc.yml`. -/
def oneDashLine : Environment := process [ascii "-config", ascii "dhtc.yml"] [] {}

/-- The parse takes the file, but the scan has not seen it. -/
theorem twoDashes_not_seen : ∃ c, parse (configFlags twoDashesLine []) twoDashesLine.args
      (register (configFlags twoDashesLine []) {}) = some c ∧
    c.configFile = ascii "dhtc.yml" ∧ argumentValue (ascii "config") twoDashesLine.args = [] := by
  have hfile : (parse (configFlags twoDashesLine []) twoDashesLine.args
      (register (configFlags twoDashesLine []) {})).map Configuration.configFile =
      some (ascii "dhtc.yml") := by
    decide +kernel
  obtain ⟨c, hparse, hfile⟩ := Option.map_eq_some_iff.1 hfile
  exact ⟨c, hparse, hfile, by decide +kernel⟩

theorem argumentValue_agrees_iff_oneDash : ∃ os rest,
    occurrences (configFlags oneDashLine []) oneDashLine.args = some (os, rest) ∧
      ¬ Misread oneDashLine.args os := by
  have hfile : (parse (configFlags oneDashLine []) oneDashLine.args
      (register (configFlags oneDashLine []) {})).map Configuration.configFile =
      some (ascii "dhtc.yml") := by
    decide +kernel
  obtain ⟨c, hparse, hfile⟩ := Option.map_eq_some_iff.1 hfile
  obtain ⟨os, rest, hos, hiff⟩ := argumentValue_agrees_iff hparse
  refine ⟨os, rest, hos, hiff.1 ?_⟩
  rw [hfile]
  decide +kernel

end Config
