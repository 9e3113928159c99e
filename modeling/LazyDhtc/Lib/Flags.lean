-- SUMMARY: Command-line flags: their registration with defaults, the parse of an argument list, and what both leave in a variable.
import LazyDhtc.Lib.Bytes
import Mathlib.Data.List.Nodup

/-!
# Flags

What the package `flag` of Go does for a program that exits when its arguments do not parse.
The flags write to the variables of a record; a flag owns a variable when no other flag
writes to it.
-/

namespace Flags

/-! ## Flags -/

/-- A flag of variables `σ`. -/
structure Flag (σ : Type*) where
  name : Bytes
  /-- it needs no value -/
  isBool : Bool
  /-- its registration, which stores the default -/
  init : σ → σ
  /-- `Value.Set`, where `none` is an error -/
  set : Bytes → σ → Option σ

/-- `strconv.ParseBool` -/
def parseBool (text : Bytes) : Option Bool :=
  if [ascii "1", ascii "t", ascii "T", ascii "TRUE", ascii "true", ascii "True"].contains text then
    some true
  else if [ascii "0", ascii "f", ascii "F", ascii "FALSE", ascii "false", ascii "False"].contains
      text then
    some false
  else none

variable {σ α : Type*}

def stringVar (name : Bytes) (put : Bytes → σ → σ) (value : σ → Bytes) : Flag σ where
  name := name
  isBool := false
  init s := put (value s) s
  set text s := some (put text s)

def boolVar (name : Bytes) (put : Bool → σ → σ) (value : Bool) : Flag σ where
  name := name
  isBool := true
  init := put value
  set text s := (parseBool text).map fun x => put x s

/-- A variable whose values are read from their texts by `read`. -/
def readVar (read : Bytes → Option α) (name : Bytes) (put : α → σ → σ) (value : α) : Flag σ where
  name := name
  isBool := false
  init := put value
  set text s := (read text).map fun x => put x s

/-- The registration of all flags, in order. -/
def register (flags : List (Flag σ)) (s : σ) : σ := flags.foldl (fun s f => f.init s) s

/-! ## Parsing -/

/-- What an argument is. -/
inductive Token where
  /-- not a flag -/
  | operand
  | terminator
  | malformed
  | flag (name : Bytes) (value : Option Bytes)

/-- A name with the value after its first `=`, which cannot be its first byte. -/
def splitValue : Bytes → Bytes × Option Bytes
  | [] => ([], none)
  | b :: bs => (b :: bs.takeWhile (· ≠ 61), (bs.dropWhile (· ≠ 61)).tail?)

def flagToken (name : Bytes) : Token :=
  match name with
  | [] => .malformed
  | b :: _ =>
    if b = 45 ∨ b = 61 then .malformed else .flag (splitValue name).1 (splitValue name).2

def token : Bytes → Token
  | 45 :: 45 :: [] => .terminator
  | 45 :: 45 :: name => flagToken name
  | 45 :: b :: name => flagToken (b :: name)
  | _ => .operand

/-- The text that a boolean flag without a value is set to. -/
def trueText : Bytes := ascii "true"

/-- `FlagSet.Parse`, where `none` is the exit of the program: for an argument that does not
    parse, a flag that is not defined, or a request for help. -/
def parse (flags : List (Flag σ)) : List Bytes → σ → Option σ
  | [], s => some s
  | arg :: args, s =>
    match token arg with
    | .operand => some s
    | .terminator => some s
    | .malformed => none
    | .flag name value =>
      match flags.find? fun f => f.name = name with
      | none => none
      | some f =>
        if f.isBool then (f.set (value.getD trueText) s).bind fun s => parse flags args s
        else
          match value, args with
          | some text, args => (f.set text s).bind fun s => parse flags args s
          | none, text :: args => (f.set text s).bind fun s => parse flags args s
          | none, [] => none

/-- The flags of an argument list with the texts they are set to, in order. -/
def assignments (flags : List (Flag σ)) : List Bytes → Option (List (Flag σ × Bytes))
  | [] => some []
  | arg :: args =>
    match token arg with
    | .operand => some []
    | .terminator => some []
    | .malformed => none
    | .flag name value =>
      match flags.find? fun f => f.name = name with
      | none => none
      | some f =>
        if f.isBool then (assignments flags args).map ((f, value.getD trueText) :: ·)
        else
          match value, args with
          | some text, args => (assignments flags args).map ((f, text) :: ·)
          | none, text :: args => (assignments flags args).map ((f, text) :: ·)
          | none, [] => none

/-- Sets flags in order. -/
def setAll : List (Flag σ × Bytes) → σ → Option σ
  | [], s => some s
  | (f, text) :: rest, s => (f.set text s).bind (setAll rest)

/-- The text that a flag is set to last. -/
def lastText (name : Bytes) : List (Flag σ × Bytes) → Option Bytes
  | [] => none
  | (f, text) :: rest => (lastText name rest).or (if f.name = name then some text else none)

/-- The text given for a flag, if it is. -/
def given (flags : List (Flag σ)) (args : List Bytes) (name : Bytes) : Option Bytes :=
  (assignments flags args).bind (lastText name)

/-! ## What a parse does -/

theorem setAll_map (f : Flag σ) (text : Bytes) (rest : Option (List (Flag σ × Bytes))) (s : σ) :
    ((rest.map ((f, text) :: ·)).bind fun rest => setAll rest s) =
      (f.set text s).bind fun s => rest.bind fun rest => setAll rest s := by
  cases rest with
  | none => cases f.set text s <;> rfl
  | some rest => rfl

/-- A parse sets the flags in the order in which they are given. -/
theorem parse_eq (flags : List (Flag σ)) (args : List Bytes) (s : σ) :
    parse flags args s = (assignments flags args).bind fun rest => setAll rest s := by
  fun_induction parse flags args s with
  | case1 => rfl
  | case2 arg args s htoken => simp [assignments, htoken, setAll]
  | case3 arg args s htoken => simp [assignments, htoken, setAll]
  | case4 arg args s htoken => simp [assignments, htoken]
  | case5 arg args s name value htoken hfind => simp [assignments, htoken, hfind]
  | case6 arg args s name value htoken f hfind hbool ih =>
    rw [assignments, htoken]
    simp only [hfind, hbool, if_true]
    rw [setAll_map]
    exact congrArg _ (funext ih)
  | case7 arg s name f hfind hvalued text args htoken ih =>
    rw [assignments, htoken]
    simp only [hfind, if_neg hvalued]
    rw [setAll_map]
    exact congrArg _ (funext ih)
  | case8 arg s name f hfind hvalued text args htoken ih =>
    rw [assignments, htoken]
    simp only [hfind, if_neg hvalued]
    rw [setAll_map]
    exact congrArg _ (funext ih)
  | case9 arg s name f hfind hvalued htoken =>
    simp [assignments, htoken, hfind, hvalued]

/-- Only flags of the list are set. -/
theorem mem_of_assignments {flags : List (Flag σ)} {args : List Bytes}
    {rest : List (Flag σ × Bytes)} (h : assignments flags args = some rest) :
    ∀ a ∈ rest, a.1 ∈ flags := by
  fun_induction assignments flags args generalizing rest with
  | case1 | case2 | case3 =>
    cases h
    exact nofun
  | case4 | case5 | case9 => cases h
  | case6 arg args name value htoken f hfind hbool ih
  | case7 arg name f hfind hvalued value args htoken ih
  | case8 arg name f hfind hvalued value args htoken ih =>
    obtain ⟨later, hlater, rfl⟩ := Option.map_eq_some_iff.1 h
    intro a ha
    rcases List.mem_cons.1 ha with rfl | ha
    · exact List.mem_of_find?_eq_some hfind
    · exact ih hlater a ha

/-! ## Variables -/

/-- The flag does not write to the variable that `get` reads. -/
structure Flag.Leaves (f : Flag σ) (get : σ → α) : Prop where
  init : ∀ s, get (f.init s) = get s
  set : ∀ text s s', f.set text s = some s' → get s' = get s

/-- The flag writes the variable that `get` reads: at its registration `value` of what is in
    it, later what `read` makes of a text. -/
structure Flag.Writes (f : Flag σ) (get : σ → α) (value : α → α) (read : Bytes → Option α) :
    Prop where
  init : ∀ s, get (f.init s) = value (get s)
  set : ∀ text s s', f.set text s = some s' → read text = some (get s')

theorem stringVar_leaves {get : σ → α} {name : Bytes} {put : Bytes → σ → σ} {value : σ → Bytes}
    (h : ∀ x s, get (put x s) = get s) : (stringVar name put value).Leaves get where
  init s := h (value s) s
  set text s := by
    rintro _ ⟨⟩
    exact h text s

theorem boolVar_leaves {get : σ → α} {name : Bytes} {put : Bool → σ → σ} {value : Bool}
    (h : ∀ x s, get (put x s) = get s) : (boolVar name put value).Leaves get where
  init s := h value s
  set text s s' hset := by
    obtain ⟨x, -, rfl⟩ := Option.map_eq_some_iff.1 hset
    exact h x s

theorem readVar_leaves {β : Type*} {read : Bytes → Option β} {get : σ → α} {name : Bytes}
    {put : β → σ → σ} {value : β} (h : ∀ x s, get (put x s) = get s) :
    (readVar read name put value).Leaves get where
  init s := h value s
  set text s s' hset := by
    obtain ⟨x, -, rfl⟩ := Option.map_eq_some_iff.1 hset
    exact h x s

theorem stringVar_writes {get : σ → Bytes} {name : Bytes} {put : Bytes → σ → σ}
    {value : Bytes → Bytes} (h : ∀ x s, get (put x s) = x) :
    (stringVar name put fun s => value (get s)).Writes get value some where
  init s := h (value (get s)) s
  set text s := by
    rintro _ ⟨⟩
    rw [h]

theorem boolVar_writes {get : σ → Bool} {name : Bytes} {put : Bool → σ → σ} {value : Bool}
    (h : ∀ x s, get (put x s) = x) :
    (boolVar name put value).Writes get (fun _ => value) parseBool where
  init s := h value s
  set text s s' hset := by
    obtain ⟨x, hread, rfl⟩ := Option.map_eq_some_iff.1 hset
    rw [hread, h]

/-- Of all flags of the list only `f` writes the variable. -/
structure Owns (flags : List (Flag σ)) (f : Flag σ) (get : σ → α) (value : α → α)
    (read : Bytes → Option α) : Prop where
  mem : f ∈ flags
  nodup : (flags.map Flag.name).Nodup
  writes : f.Writes get value read
  leaves : ∀ g ∈ flags, g.name ≠ f.name → g.Leaves get

variable {flags : List (Flag σ)} {f : Flag σ} {get : σ → α} {value : α → α}
  {read : Bytes → Option α}

theorem Owns.eq_of_name (h : Owns flags f get value read) {g : Flag σ} (hg : g ∈ flags)
    (hname : g.name = f.name) : g = f := List.inj_on_of_nodup_map h.nodup hg h.mem hname

theorem register_leaves {flags : List (Flag σ)} {get : σ → α} (h : ∀ g ∈ flags, g.Leaves get)
    (s : σ) : get (register flags s) = get s := by
  induction flags generalizing s with
  | nil => rfl
  | cons g flags ih =>
    exact (ih (fun g hg => h g (List.mem_cons_of_mem _ hg)) (g.init s)).trans
      ((h g List.mem_cons_self).init s)

/-- After the registration the variable has its default. -/
theorem Owns.get_register (h : Owns flags f get value read) (s : σ) :
    get (register flags s) = value (get s) := by
  obtain ⟨pre, post, hsplit⟩ := List.append_of_mem h.mem
  have hnodup := h.nodup
  rw [hsplit, List.map_append, List.map_cons] at hnodup
  have hnot := (List.nodup_middle.1 hnodup).notMem
  have hothers : ∀ g ∈ pre ++ post, g.Leaves get := by
    intro g hg
    refine h.leaves g ?_ ?_
    · rw [hsplit]
      exact List.perm_middle.mem_iff.2 (List.mem_cons_of_mem _ hg)
    · intro hname
      rw [← List.map_append, ← hname] at hnot
      exact hnot (List.mem_map_of_mem hg)
  have hall : register flags s = register post (f.init (register pre s)) := by
    rw [hsplit]
    exact List.foldl_append
  rw [hall, register_leaves fun g hg => hothers g (List.mem_append_right _ hg), h.writes.init,
    register_leaves fun g hg => hothers g (List.mem_append_left _ hg)]

/-- Setting flags leaves in the variable what its text given last stands for. -/
theorem Owns.get_setAll (h : Owns flags f get value read) {rest : List (Flag σ × Bytes)}
    (hrest : ∀ a ∈ rest, a.1 ∈ flags) {s s' : σ} (hset : setAll rest s = some s') :
    match lastText f.name rest with
    | some text => read text = some (get s')
    | none => get s' = get s := by
  induction rest generalizing s with
  | nil =>
    cases hset
    rfl
  | cons a rest ih =>
    obtain ⟨g, text⟩ := a
    obtain ⟨s₁, hg, hlater⟩ := Option.bind_eq_some_iff.1 hset
    have hlast := ih (fun a ha => hrest a (List.mem_cons_of_mem _ ha)) hlater
    rw [lastText]
    cases hl : lastText f.name rest with
    | some text' =>
      rw [hl] at hlast
      exact hlast
    | none =>
      rw [hl] at hlast
      by_cases hname : g.name = f.name
      · obtain rfl := h.eq_of_name (hrest _ List.mem_cons_self) hname
        rw [Option.none_or, if_pos rfl]
        exact (h.writes.set text s s₁ hg).trans (congrArg some hlast.symm)
      · rw [Option.none_or, if_neg hname]
        exact hlast.trans ((h.leaves g (hrest _ List.mem_cons_self) hname).set text s s₁ hg)

/-- After registration and parse a variable has the value that was given for its flag, or
    else its default. -/
theorem Owns.get_parse (h : Owns flags f get value read) {args : List Bytes} {s s' : σ}
    (hparse : parse flags args (register flags s) = some s') :
    match given flags args f.name with
    | some text => read text = some (get s')
    | none => get s' = value (get s) := by
  rw [parse_eq] at hparse
  obtain ⟨rest, hrest, hset⟩ := Option.bind_eq_some_iff.1 hparse
  have hlast := h.get_setAll (mem_of_assignments hrest) hset
  rw [h.get_register] at hlast
  rw [given, hrest]
  exact hlast

/-! ## Where the flags stand -/

/-- A flag on the command line: the arguments it takes up and the text it is set to. -/
structure Occurrence (σ : Type*) where
  flag : Flag σ
  args : List Bytes
  text : Bytes

/-- The flags of an argument list in order, and the arguments after them. -/
def occurrences (flags : List (Flag σ)) : List Bytes → Option (List (Occurrence σ) × List Bytes)
  | [] => some ([], [])
  | arg :: args =>
    match token arg with
    | .operand => some ([], arg :: args)
    | .terminator => some ([], arg :: args)
    | .malformed => none
    | .flag name value =>
      match flags.find? fun f => f.name = name with
      | none => none
      | some f =>
        if f.isBool then
          (occurrences flags args).map fun r => (⟨f, [arg], value.getD trueText⟩ :: r.1, r.2)
        else
          match value, args with
          | some text, args => (occurrences flags args).map fun r => (⟨f, [arg], text⟩ :: r.1, r.2)
          | none, text :: args =>
            (occurrences flags args).map fun r => (⟨f, [arg, text], text⟩ :: r.1, r.2)
          | none, [] => none

/-- The last flag of a name is `o`, and `pre` come before it. -/
structure LastOccurrence (name : Bytes) (os pre : List (Occurrence σ)) (o : Occurrence σ) :
    Prop where
  named : o.flag.name = name
  last : ∃ post, os = pre ++ o :: post ∧ ∀ a ∈ post, a.flag.name ≠ name

theorem assignments_eq (flags : List (Flag σ)) (args : List Bytes) :
    assignments flags args =
      (occurrences flags args).map fun r => r.1.map fun o => (o.flag, o.text) := by
  fun_induction occurrences flags args with
  | case1 => rfl
  | case2 arg args htoken => simp [assignments, htoken]
  | case3 arg args htoken => simp [assignments, htoken]
  | case4 arg args htoken => simp [assignments, htoken]
  | case5 arg args name value htoken hfind => simp [assignments, htoken, hfind]
  | case6 arg args name value htoken f hfind hbool ih =>
    rw [assignments, htoken]
    simp only [hfind, hbool, if_true, ih, Option.map_map]
    rfl
  | case7 arg name f hfind hvalued text args htoken ih =>
    rw [assignments, htoken]
    simp only [hfind, if_neg hvalued, ih, Option.map_map]
    rfl
  | case8 arg name f hfind hvalued text args htoken ih =>
    rw [assignments, htoken]
    simp only [hfind, if_neg hvalued, ih, Option.map_map]
    rfl
  | case9 arg name f hfind hvalued htoken => simp [assignments, htoken, hfind, hvalued]

/-- The arguments of a flag that needs a value. -/
inductive Occurrence.Valued (o : Occurrence σ) : Prop where
  | joined {arg : Bytes} : o.args = [arg] → token arg = .flag o.flag.name (some o.text) → o.Valued
  | apart {arg : Bytes} : o.args = [arg, o.text] → token arg = .flag o.flag.name none → o.Valued

/-- An argument list is made up of its flags and what comes after them. -/
theorem occurrences_spec {flags : List (Flag σ)} {args rest : List Bytes}
    {os : List (Occurrence σ)} (h : occurrences flags args = some (os, rest)) :
    args = os.flatMap Occurrence.args ++ rest ∧
      ∀ o ∈ os, o.flag ∈ flags ∧ (o.flag.isBool = false → o.Valued) := by
  fun_induction occurrences flags args generalizing os rest with
  | case1 | case2 | case3 =>
    cases h
    exact ⟨rfl, nofun⟩
  | case4 | case5 | case9 => cases h
  | case6 arg args name value htoken f hfind hbool ih =>
    obtain ⟨⟨os', rest'⟩, hlater, heq⟩ := Option.map_eq_some_iff.1 h
    cases heq
    obtain ⟨hargs, hall⟩ := ih hlater
    refine ⟨by rw [hargs]; rfl, List.forall_mem_cons.2 ⟨⟨List.mem_of_find?_eq_some hfind, ?_⟩, hall⟩⟩
    intro hvalued
    cases hvalued.symm.trans hbool
  | case7 arg name f hfind hvalued text args htoken ih =>
    obtain ⟨⟨os', rest'⟩, hlater, heq⟩ := Option.map_eq_some_iff.1 h
    cases heq
    obtain ⟨hargs, hall⟩ := ih hlater
    have hname : f.name = name := by simpa using List.find?_some hfind
    refine ⟨by rw [hargs]; rfl, List.forall_mem_cons.2 ⟨⟨List.mem_of_find?_eq_some hfind, ?_⟩, hall⟩⟩
    exact fun _ => .joined rfl (by rw [htoken, hname])
  | case8 arg name f hfind hvalued text args htoken ih =>
    obtain ⟨⟨os', rest'⟩, hlater, heq⟩ := Option.map_eq_some_iff.1 h
    cases heq
    obtain ⟨hargs, hall⟩ := ih hlater
    have hname : f.name = name := by simpa using List.find?_some hfind
    refine ⟨by rw [hargs]; rfl, List.forall_mem_cons.2 ⟨⟨List.mem_of_find?_eq_some hfind, ?_⟩, hall⟩⟩
    exact fun _ => .apart rfl (by rw [htoken, hname])

theorem flagToken_flag {t name : Bytes} {value : Option Bytes}
    (h : flagToken t = .flag name value) : t = name ++ value.elim [] (61 :: ·) := by
  unfold flagToken at h
  split at h
  · cases h
  · next b bs =>
    split at h
    · cases h
    · cases h
      have hsplit := List.takeWhile_append_dropWhile (p := (· ≠ 61)) (l := bs)
      dsimp only [splitValue]
      cases hvalue : bs.dropWhile (· ≠ 61) with
      | nil =>
        rw [hvalue, List.append_nil] at hsplit
        rw [hsplit]
        exact (List.append_nil _).symm
      | cons c text =>
        have hc := List.head?_dropWhile_not (· ≠ 61) bs
        rw [hvalue] at hc hsplit
        obtain rfl : c = 61 := by simpa using hc
        exact congrArg _ hsplit.symm

/-- The arguments from a flag on begin with its own. -/
theorem drop_place {args rest : List Bytes} {os pre post : List (Occurrence σ)} {o : Occurrence σ}
    (hargs : args = os.flatMap Occurrence.args ++ rest) (hos : os = pre ++ o :: post) :
    args.drop (pre.flatMap Occurrence.args).length =
      o.args ++ (post.flatMap Occurrence.args ++ rest) := by
  rw [hargs, hos, List.flatMap_append, List.flatMap_cons, List.append_assoc, List.drop_left,
    List.append_assoc]

/-- A flag is spelled with two dashes, or with one and then its name and value. -/
theorem token_flag {arg name : Bytes} {value : Option Bytes} (h : token arg = .flag name value) :
    [45, 45] <+: arg ∨ arg = 45 :: (name ++ value.elim [] (61 :: ·)) := by
  unfold token at h
  split at h
  · cases h
  · exact .inl ⟨_, rfl⟩
  · exact .inr (congrArg _ (flagToken_flag h))
  · cases h

section

variable {flags : List (Flag σ)} {args rest : List Bytes} {os pre : List (Occurrence σ)}
  {o : Occurrence σ} {name : Bytes}

theorem last_or_none (name : Bytes) (os : List (Occurrence σ)) :
    (∃ pre o, LastOccurrence name os pre o) ∨ ∀ o ∈ os, o.flag.name ≠ name := by
  induction os with
  | nil => exact .inr nofun
  | cons o os ih =>
    rcases ih with ⟨pre, o', hnamed, post, rfl, hpost⟩ | hnone
    · exact .inl ⟨o :: pre, o', hnamed, post, rfl, hpost⟩
    · by_cases hname : o.flag.name = name
      · exact .inl ⟨[], o, hname, os, rfl, hnone⟩
      · exact .inr (List.forall_mem_cons.2 ⟨hname, hnone⟩)

theorem lastText_of_none (h : ∀ o ∈ os, o.flag.name ≠ name) :
    lastText name (os.map fun o => (o.flag, o.text)) = none := by
  induction os with
  | nil => rfl
  | cons o os ih =>
    rw [List.forall_mem_cons] at h
    rw [List.map_cons, lastText, ih h.2, if_neg h.1]
    rfl

theorem LastOccurrence.lastText_eq (h : LastOccurrence name os pre o) :
    lastText name (os.map fun o => (o.flag, o.text)) = some o.text := by
  obtain ⟨hnamed, post, rfl, hpost⟩ := h
  induction pre with
  | nil =>
    rw [List.nil_append, List.map_cons, lastText, lastText_of_none hpost, if_pos hnamed]
    rfl
  | cons a pre ih =>
    rw [List.cons_append, List.map_cons, lastText, ih]
    rfl

/-- Flags in front of the last one do not matter. -/
theorem LastOccurrence.append (before : List (Occurrence σ)) (h : LastOccurrence name os pre o) :
    LastOccurrence name (before ++ os) (before ++ pre) o := by
  obtain ⟨hnamed, post, rfl, hpost⟩ := h
  exact ⟨hnamed, post, (List.append_assoc _ _ _).symm, hpost⟩

theorem LastOccurrence.given_eq (h : LastOccurrence name os pre o)
    (hos : occurrences flags args = some (os, rest)) : given flags args name = some o.text := by
  rw [given, assignments_eq, hos, Option.map_some, Option.bind_some, h.lastText_eq]

theorem given_of_none (h : ∀ o ∈ os, o.flag.name ≠ name)
    (hos : occurrences flags args = some (os, rest)) : given flags args name = none := by
  rw [given, assignments_eq, hos, Option.map_some, Option.bind_some, lastText_of_none h]

end

end Flags
