-- SUMMARY: Which of the command line, the file and the defaults a setting takes its value from.
import LazyDhtc.Config.Configuration

/-!
# Precedence

The settings that the file and the command line share. All but one store what the file says
as the default of their flag.
-/

namespace Config

open Flags

/-! ## The shared settings -/

/-- The settings of the file that are strings and have a flag. -/
inductive Setting where
  | networkMode
  | listenIPv4
  | listenIPv6
  | routingTableCacheIPv4
  | routingTableCacheIPv6
  | crawlerScheduleStart
  | crawlerScheduleEnd

namespace Setting

def flagName : Setting → Bytes
  | .networkMode => ascii "NetworkMode"
  | .listenIPv4 => ascii "ListenIPv4"
  | .listenIPv6 => ascii "ListenIPv6"
  | .routingTableCacheIPv4 => ascii "RoutingTableCacheIPv4"
  | .routingTableCacheIPv6 => ascii "RoutingTableCacheIPv6"
  | .crawlerScheduleStart => ascii "CrawlerScheduleStart"
  | .crawlerScheduleEnd => ascii "CrawlerScheduleEnd"

def get : Setting → Configuration → Bytes
  | .networkMode, c => c.networkMode
  | .listenIPv4, c => c.listenIPv4
  | .listenIPv6, c => c.listenIPv6
  | .routingTableCacheIPv4, c => c.routingTableCacheIPv4
  | .routingTableCacheIPv6, c => c.routingTableCacheIPv6
  | .crawlerScheduleStart, c => c.crawlerScheduleStart
  | .crawlerScheduleEnd, c => c.crawlerScheduleEnd

def put : Setting → Bytes → Configuration → Configuration
  | .networkMode, x, c => { c with networkMode := x }
  | .listenIPv4, x, c => { c with listenIPv4 := x }
  | .listenIPv6, x, c => { c with listenIPv6 := x }
  | .routingTableCacheIPv4, x, c => { c with routingTableCacheIPv4 := x }
  | .routingTableCacheIPv6, x, c => { c with routingTableCacheIPv6 := x }
  | .crawlerScheduleStart, x, c => { c with crawlerScheduleStart := x }
  | .crawlerScheduleEnd, x, c => { c with crawlerScheduleEnd := x }

/-- The built-in default. -/
def fallback : Setting → Bytes
  | .networkMode => ascii "dual"
  | .listenIPv4 => ascii "0.0.0.0:0"
  | .listenIPv6 => ascii "[::]:0"
  | .routingTableCacheIPv4 => ascii "routing-table-v4.json"
  | .routingTableCacheIPv6 => ascii "routing-table-v6.json"
  | .crawlerScheduleStart => ascii "22:00"
  | .crawlerScheduleEnd => ascii "07:00"

def inFile : Setting → FileConfig → Bytes
  | .networkMode, file => file.networkMode
  | .listenIPv4, file => file.listenIPv4
  | .listenIPv6, file => file.listenIPv6
  | .routingTableCacheIPv4, file => file.routingCacheIPv4
  | .routingTableCacheIPv6, file => file.routingCacheIPv6
  | .crawlerScheduleStart, file => file.schedule.start
  | .crawlerScheduleEnd, file => file.schedule.end_

/-- What is done with the value in the end. -/
def normalize : Setting → Bytes → Bytes
  | .networkMode, value => normalizeNetworkMode value
  | _, value => value

def flag (k : Setting) : Flag Configuration :=
  stringVar k.flagName k.put fun c => defaultString (k.get c) k.fallback

/-- The value by precedence: the one given on the command line, else the one of the file if it
    is not empty, else the default. -/
def expected (k : Setting) (given : Option Bytes) (file : FileConfig) : Bytes :=
  k.normalize <| match given with
    | some value => value
    | none => if k.inFile file ≠ [] then k.inFile file else k.fallback

end Setting

def scheduleFlag : Flag Configuration :=
  boolVar (ascii "CrawlerScheduleEnabled") (fun x c => { c with crawlerScheduleEnabled := x }) false

/-- The settings have their values by precedence. -/
structure Precedence (env : Environment) (file : FileConfig) (c : Configuration) : Prop where
  strings : ∀ k : Setting, k.get c =
    k.expected (given (configFlags env (argumentValue (ascii "config") env.args)) env.args
      k.flagName) file
  scheduleEnabled : some c.crawlerScheduleEnabled =
    match given (configFlags env (argumentValue (ascii "config") env.args)) env.args
      (ascii "CrawlerScheduleEnabled") with
    | some text => parseBool text
    | none => some file.schedule.enabled

/-! ## The flags of the settings -/

/-- The names of all flags, in the order of their registration. -/
def flagNames : List Bytes := (configFlags ⟨[], [], id, fun _ => none, fun _ => none, fun _ => none,
  fun _ => none, fun _ => none⟩ []).map Flag.name

/-- No flag is registered twice. -/
theorem flagNames_nodup : flagNames.Nodup := by decide +kernel

theorem configFlags_nodup (env : Environment) (configFile : Bytes) :
    ((configFlags env configFile).map Flag.name).Nodup := by
  have hnames : (configFlags env configFile).map Flag.name = flagNames := rfl
  rw [hnames]
  exact flagNames_nodup

theorem Setting.owns (k : Setting) (env : Environment) (configFile : Bytes) :
    Owns (configFlags env configFile) k.flag k.get (fun value => defaultString value k.fallback)
      some where
  mem := by
    cases k with
    | networkMode => exact List.mem_of_getElem? (i := 32) rfl
    | listenIPv4 => exact List.mem_of_getElem? (i := 33) rfl
    | listenIPv6 => exact List.mem_of_getElem? (i := 34) rfl
    | routingTableCacheIPv4 => exact List.mem_of_getElem? (i := 35) rfl
    | routingTableCacheIPv6 => exact List.mem_of_getElem? (i := 36) rfl
    | crawlerScheduleStart => exact List.mem_of_getElem? (i := 28) rfl
    | crawlerScheduleEnd => exact List.mem_of_getElem? (i := 29) rfl
  nodup := configFlags_nodup env configFile
  writes := by
    refine @stringVar_writes Configuration k.get k.flagName k.put
      (fun value => defaultString value k.fallback) ?_
    cases k <;> exact fun _ _ => rfl
  leaves := by
    cases k
    all_goals
      simp only [configFlags, List.forall_mem_cons]
      and_intros
      all_goals first
        | exact fun _ => stringVar_leaves fun _ _ => rfl
        | exact fun _ => readVar_leaves fun _ _ => rfl
        | exact fun _ => boolVar_leaves fun _ _ => rfl
        | exact fun hne => absurd rfl hne
        | exact nofun

theorem scheduleFlag_owns (env : Environment) (configFile : Bytes) :
    Owns (configFlags env configFile) scheduleFlag Configuration.crawlerScheduleEnabled
      (fun _ => false) parseBool where
  mem := List.mem_of_getElem? (i := 27) rfl
  nodup := configFlags_nodup env configFile
  writes := boolVar_writes fun _ _ => rfl
  leaves := by
    simp only [configFlags, List.forall_mem_cons]
    and_intros
    all_goals first
      | exact fun _ => stringVar_leaves fun _ _ => rfl
      | exact fun _ => readVar_leaves fun _ _ => rfl
      | exact fun _ => boolVar_leaves fun _ _ => rfl
      | exact fun hne => absurd rfl hne
      | exact nofun

/-! ## The result -/

theorem Setting.get_fromFile (k : Setting) (file : FileConfig) :
    k.get (fromFile file) = k.inFile file := by
  cases k <;> rfl

/-- What a parse of the command line over a file leaves in the settings. -/
theorem parseArguments_settings {env : Environment} {data : Bytes} {file : FileConfig}
    {c : Configuration} (hconfig : argumentValue (ascii "config") env.args ≠ [])
    (hread : env.readFile (argumentValue (ascii "config") env.args) = some data)
    (hdocument : env.unmarshal data = some file) (h : parseArguments env = some c) :
    (∀ k : Setting, k.get c = k.expected
      (given (configFlags env (argumentValue (ascii "config") env.args)) env.args k.flagName)
        file) ∧
    match given (configFlags env (argumentValue (ascii "config") env.args)) env.args
      (ascii "CrawlerScheduleEnabled") with
    | some text => parseBool text = some c.crawlerScheduleEnabled
    | none => c.crawlerScheduleEnabled = false := by
  have hload : loadFile env (argumentValue (ascii "config") env.args) = fromFile file := by
    rw [loadFile, if_pos hconfig, hread, Option.bind_some, hdocument]
  obtain ⟨parsed, hparse, rfl⟩ := Option.map_eq_some_iff.1 h
  rw [hload] at hparse
  constructor
  · intro k
    have hvalue := (k.owns env (argumentValue (ascii "config") env.args)).get_parse hparse
    have hnormal : k.get { parsed with
        networkMode := normalizeNetworkMode parsed.networkMode
        nodeRole := normalizeNodeRole parsed.nodeRole } = k.normalize (k.get parsed) := by
      cases k <;> simp only [Setting.get, Setting.normalize]
    rw [hnormal]
    refine congrArg k.normalize ?_
    change match given _ env.args k.flagName with
      | some text => some text = some (k.get parsed)
      | none => k.get parsed = defaultString (k.get (fromFile file)) k.fallback at hvalue
    split at hvalue
    · exact (Option.some.inj hvalue).symm
    · rw [hvalue, k.get_fromFile]
      rfl
  · have hvalue :=
      (scheduleFlag_owns env (argumentValue (ascii "config") env.args)).get_parse hparse
    exact hvalue

/-- The settings have their values by precedence if and only if the document does not enable
    the schedule, or the command line has the flag that does. -/
theorem precedence_iff {env : Environment} {data : Bytes} {file : FileConfig}
    {c : Configuration} (hconfig : argumentValue (ascii "config") env.args ≠ [])
    (hread : env.readFile (argumentValue (ascii "config") env.args) = some data)
    (hdocument : env.unmarshal data = some file) (h : parseArguments env = some c) :
    Precedence env file c ↔ (file.schedule.enabled = true →
      (given (configFlags env (argumentValue (ascii "config") env.args)) env.args
        (ascii "CrawlerScheduleEnabled")).isSome) := by
  obtain ⟨hstrings, hschedule⟩ := parseArguments_settings hconfig hread hdocument h
  constructor
  · intro hprecedence henabled
    have hvalue := hprecedence.scheduleEnabled
    split at hvalue
    · next hgiven =>
      rw [hgiven]
      rfl
    · next hgiven =>
      rw [hgiven] at hschedule
      dsimp only at hschedule
      rw [hschedule, henabled] at hvalue
      cases hvalue
  · intro hgiven
    refine ⟨hstrings, ?_⟩
    split
    · next text htext =>
      rw [htext] at hschedule
      exact hschedule.symm
    · next htext =>
      rw [htext] at hschedule hgiven
      dsimp only at hschedule
      rw [hschedule]
      cases henabled : file.schedule.enabled with
      | false => rfl
      | true => cases hgiven henabled

/-! ## Two documents -/

/-- A process with a file `dhtc.yml`, whose text is the only one that is ever unmarshalled. -/
def process (args : List Bytes) (text : Bytes) (file : FileConfig) : Environment where
  program := ascii "dhtc"
  args := args
  getenv _ := []
  readFile path := if path = ascii "dhtc.yml" then some text else none
  unmarshal data := if data = text then some file else none
  parseInt _ := none
  parseUint _ := none
  parseDuration _ := none

theorem process_unmarshal (args : List Bytes) (text : Bytes) (file : FileConfig) :
    (process args text file).unmarshal text = some file := if_pos rfl

/-- A document with a mode and an address, read with a flag for the mode. -/
def listening : Environment :=
  process [ascii "-config", ascii "dhtc.yml", ascii "-NetworkMode", ascii "dual"]
    (ascii "network:\n  mode: ipv4\nlisten:\n  ipv4: 127.0.0.1:6881\n")
    { networkMode := ascii "ipv4", listenIPv4 := ascii "127.0.0.1:6881" }

theorem precedence_iff_listening : ∃ c, parseArguments listening = some c ∧ Precedence listening
    { networkMode := ascii "ipv4", listenIPv4 := ascii "127.0.0.1:6881" } c := by
  have hsome : (parseArguments listening).isSome = true := by decide +kernel
  have hconfig : argumentValue (ascii "config") listening.args ≠ [] := by decide +kernel
  have hread : listening.readFile (argumentValue (ascii "config") listening.args) =
      some (ascii "network:\n  mode: ipv4\nlisten:\n  ipv4: 127.0.0.1:6881\n") := by
    decide +kernel
  obtain ⟨c, hc⟩ := Option.isSome_iff_exists.1 hsome
  exact ⟨c, hc, (precedence_iff hconfig hread (process_unmarshal _ _ _) hc).2 nofun⟩

/-- A document that enables the schedule. -/
def scheduled : Environment :=
  process [ascii "-config", ascii "dhtc.yml"]
    (ascii "crawler:\n  schedule:\n    enabled: true\n") { schedule := { enabled := true } }

/-- The schedule that the document enables is not enabled. -/
theorem schedule_not_enabled : ∃ c, parseArguments scheduled = some c ∧
    c.crawlerScheduleEnabled = false ∧
    ¬ Precedence scheduled { schedule := { enabled := true } } c := by
  have hsome : (parseArguments scheduled).isSome = true := by decide +kernel
  have hconfig : argumentValue (ascii "config") scheduled.args ≠ [] := by decide +kernel
  have hread : scheduled.readFile (argumentValue (ascii "config") scheduled.args) =
      some (ascii "crawler:\n  schedule:\n    enabled: true\n") := by
    decide +kernel
  have hnone : given (configFlags scheduled (argumentValue (ascii "config") scheduled.args))
      scheduled.args (ascii "CrawlerScheduleEnabled") = none := by
    decide +kernel
  obtain ⟨c, hc⟩ := Option.isSome_iff_exists.1 hsome
  obtain ⟨-, hschedule⟩ :=
    parseArguments_settings hconfig hread (process_unmarshal _ _ _) hc
  rw [hnone] at hschedule
  refine ⟨c, hc, hschedule, ?_⟩
  intro hprecedence
  have hvalue := hprecedence.scheduleEnabled
  rw [hnone, hschedule] at hvalue
  cases hvalue

end Config
