-- SUMMARY: The configuration of a process: the YAML file, the registration of the flags over it, and the parse of the command line.
import LazyDhtc.Lib.Flags
import LazyDhtc.Lib.Unicode

/-!
# Configuration

`ParseArguments` writes the settings of the file into the configuration first. The flags are
registered over it, where each stores its default, and then parsed.
-/

namespace Config

open Flags Unicode

/-! ## Data -/

/-- A `Configuration`; a new one is empty. A `time.Duration` is its number of nanoseconds. -/
structure Configuration where
  nodeRole : Bytes := []
  workerURLs : Bytes := []
  clusterToken : Bytes := []
  workerID : Bytes := []
  workerQueue : Int64 := 0
  workerBatch : Int64 := 0
  workerCacheDir : Bytes := []
  masterURL : Bytes := []
  dbName : Bytes := []
  databaseType : Bytes := []
  databaseUrl : Bytes := []
  address : Bytes := []
  maxNeighbors : UInt64 := 0
  maxLeeches : Int64 := 0
  drainTimeout : Int64 := 0
  telegramToken : Bytes := []
  telegramUsername : Bytes := []
  discordWebhook : Bytes := []
  slackWebhook : Bytes := []
  gotifyURL : Bytes := []
  gotifyToken : Bytes := []
  safeMode : Bool := false
  crawlerThreads : Int64 := 0
  maxConcurrentDownloads : Int64 := 0
  rateLimit : Int64 := 0
  crawlerAutoStopMinutes : Int64 := 0
  crawlerStartOnLaunch : Bool := false
  crawlerScheduleEnabled : Bool := false
  crawlerScheduleStart : Bytes := []
  crawlerScheduleEnd : Bytes := []
  maxSavedTorrents : Int64 := 0
  networkMode : Bytes := []
  listenIPv4 : Bytes := []
  listenIPv6 : Bytes := []
  routingTableCacheIPv4 : Bytes := []
  routingTableCacheIPv6 : Bytes := []
  bootstrapIPv4 : List Bytes := []
  configFile : Bytes := []
  enableBlacklist : Bool := false
  nameBlacklist : Bytes := []
  fileBlacklist : Bytes := []
  onlyChineseContent : Bool := false
  statistics : Bool := false
  bootstrapNodeFile : Bytes := []
  onlyWebServer : Bool := false
  authUser : Bytes := []
  authPass : Bytes := []
  sessionSecret : Bytes := []
  transmissionURL : Bytes := []
  transmissionUser : Bytes := []
  transmissionPass : Bytes := []
  aria2URL : Bytes := []
  aria2Token : Bytes := []
  delugeURL : Bytes := []
  delugePass : Bytes := []
  qbittorrentURL : Bytes := []
  qbittorrentUser : Bytes := []
  qbittorrentPass : Bytes := []

structure Schedule where
  enabled : Bool := false
  start : Bytes := []
  end_ : Bytes := []

/-- The `fileConfig`; what a document does not set stays empty or `false`. -/
structure FileConfig where
  networkMode : Bytes := []
  listenIPv4 : Bytes := []
  listenIPv6 : Bytes := []
  bootstrapIPv4 : List Bytes := []
  routingCacheIPv4 : Bytes := []
  routingCacheIPv6 : Bytes := []
  schedule : Schedule := {}

/-- What `ParseArguments` reads from its surroundings. How YAML and the texts of numbers are
    read is left open. -/
structure Environment where
  /-- `os.Args[0]` -/
  program : Bytes
  /-- `os.Args[1:]` -/
  args : List Bytes
  getenv : Bytes → Bytes
  readFile : Bytes → Option Bytes
  unmarshal : Bytes → Option FileConfig
  parseInt : Bytes → Option Int64
  parseUint : Bytes → Option UInt64
  parseDuration : Bytes → Option Int64

/-! ## Normal forms -/

def normalizeNetworkMode (mode : Bytes) : Bytes :=
  let mode := toLower (trimSpace mode)
  if mode = ascii "dual" then ascii "dual"
  else if mode = ascii "ipv6" then ascii "dual"
  else ascii "ipv4"

def normalizeNodeRole (role : Bytes) : Bytes :=
  let role := toLower (trimSpace role)
  if role = ascii "master" then ascii "master"
  else if role = ascii "worker" then ascii "worker"
  else ascii "standalone"

/-- `filepath.Base`, where the separator is `/`. -/
def base (path : Bytes) : Bytes :=
  if path = [] then ascii "."
  else
    let last := (path.rdropWhile fun b => b == 47).rtakeWhile fun b => b != 47
    if last = [] then ascii "/" else last

/-! ## The file -/

/-- The loop of `argumentValue`. -/
def argumentValue (name : Bytes) : List Bytes → Bytes
  | [] => []
  | arg :: args =>
    let pre := ascii "-" ++ name ++ ascii "="
    if hasPrefix arg pre then arg.drop pre.length
    else if arg = ascii "-" ++ name then
      match args with
      | value :: _ => value
      | [] => argumentValue name args
    else argumentValue name args

/-- The configuration with the settings of the file. -/
def fromFile (file : FileConfig) : Configuration where
  networkMode := file.networkMode
  listenIPv4 := file.listenIPv4
  listenIPv6 := file.listenIPv6
  bootstrapIPv4 := file.bootstrapIPv4
  routingTableCacheIPv4 := file.routingCacheIPv4
  routingTableCacheIPv6 := file.routingCacheIPv6
  crawlerScheduleEnabled := file.schedule.enabled
  crawlerScheduleStart := file.schedule.start
  crawlerScheduleEnd := file.schedule.end_

def loadFile (env : Environment) (configFile : Bytes) : Configuration :=
  if configFile ≠ [] then
    match (env.readFile configFile).bind env.unmarshal with
    | some file => fromFile file
    | none => {}
  else {}

/-! ## The flags -/

def defaultString (value fallback : Bytes) : Bytes := if value ≠ [] then value else fallback

def defaultRole (program : Bytes) : Bytes :=
  if contains (toLower (base program)) (ascii "dhtc-worker") then ascii "worker"
  else ascii "standalone"

/-- The flags in the order of their registration. -/
def configFlags (env : Environment) (configFile : Bytes) : List (Flag Configuration) :=
  [stringVar (ascii "node-role") (fun x c => { c with nodeRole := x })
      fun _ => defaultRole env.program,
    stringVar (ascii "worker-urls") (fun x c => { c with workerURLs := x }) fun _ => [],
    stringVar (ascii "cluster-token") (fun x c => { c with clusterToken := x })
      fun _ => env.getenv (ascii "DHTC_CLUSTER_TOKEN"),
    stringVar (ascii "worker-id") (fun x c => { c with workerID := x })
      fun _ => env.getenv (ascii "DHTC_WORKER_ID"),
    readVar env.parseInt (ascii "worker-queue") (fun x c => { c with workerQueue := x }) 256,
    readVar env.parseInt (ascii "worker-batch") (fun x c => { c with workerBatch := x }) 16,
    stringVar (ascii "worker-cache-dir") (fun x c => { c with workerCacheDir := x }) fun _ => [],
    stringVar (ascii "master-url") (fun x c => { c with masterURL := x }) fun _ => [],
    stringVar (ascii "database") (fun x c => { c with dbName := x }) fun _ => ascii "dhtdb",
    stringVar (ascii "database-type") (fun x c => { c with databaseType := x })
      fun _ => ascii "clover",
    stringVar (ascii "database-url") (fun x c => { c with databaseUrl := x }) fun _ => [],
    stringVar (ascii "address") (fun x c => { c with address := x }) fun _ => ascii ":4200",
    readVar env.parseUint (ascii "MaxNeighbors") (fun x c => { c with maxNeighbors := x }) 500,
    readVar env.parseInt (ascii "MaxLeeches") (fun x c => { c with maxLeeches := x }) 128,
    readVar env.parseDuration (ascii "DrainTimeout") (fun x c => { c with drainTimeout := x })
      5000000000,
    stringVar (ascii "TelegramToken") (fun x c => { c with telegramToken := x }) fun _ => [],
    stringVar (ascii "TelegramUsername") (fun x c => { c with telegramUsername := x })
      fun _ => [],
    stringVar (ascii "DiscordWebhook") (fun x c => { c with discordWebhook := x }) fun _ => [],
    stringVar (ascii "SlackWebhook") (fun x c => { c with slackWebhook := x }) fun _ => [],
    stringVar (ascii "GotifyURL") (fun x c => { c with gotifyURL := x }) fun _ => [],
    stringVar (ascii "GotifyToken") (fun x c => { c with gotifyToken := x }) fun _ => [],
    boolVar (ascii "SafeMode") (fun x c => { c with safeMode := x }) false,
    readVar env.parseInt (ascii "CrawlerThreads") (fun x c => { c with crawlerThreads := x }) 2,
    readVar env.parseInt (ascii "MaxConcurrentDownloads")
      (fun x c => { c with maxConcurrentDownloads := x }) 10,
    readVar env.parseInt (ascii "RateLimit") (fun x c => { c with rateLimit := x }) 100,
    readVar env.parseInt (ascii "CrawlerAutoStopMinutes")
      (fun x c => { c with crawlerAutoStopMinutes := x }) 0,
    boolVar (ascii "CrawlerStartOnLaunch") (fun x c => { c with crawlerStartOnLaunch := x }) false,
    boolVar (ascii "CrawlerScheduleEnabled") (fun x c => { c with crawlerScheduleEnabled := x })
      false,
    stringVar (ascii "CrawlerScheduleStart") (fun x c => { c with crawlerScheduleStart := x })
      fun c => defaultString c.crawlerScheduleStart (ascii "22:00"),
    stringVar (ascii "CrawlerScheduleEnd") (fun x c => { c with crawlerScheduleEnd := x })
      fun c => defaultString c.crawlerScheduleEnd (ascii "07:00"),
    readVar env.parseInt (ascii "MaxSavedTorrents") (fun x c => { c with maxSavedTorrents := x })
      20000,
    stringVar (ascii "config") (fun x c => { c with configFile := x }) fun _ => configFile,
    stringVar (ascii "NetworkMode") (fun x c => { c with networkMode := x })
      fun c => defaultString c.networkMode (ascii "dual"),
    stringVar (ascii "ListenIPv4") (fun x c => { c with listenIPv4 := x })
      fun c => defaultString c.listenIPv4 (ascii "0.0.0.0:0"),
    stringVar (ascii "ListenIPv6") (fun x c => { c with listenIPv6 := x })
      fun c => defaultString c.listenIPv6 (ascii "[::]:0"),
    stringVar (ascii "RoutingTableCacheIPv4") (fun x c => { c with routingTableCacheIPv4 := x })
      fun c => defaultString c.routingTableCacheIPv4 (ascii "routing-table-v4.json"),
    stringVar (ascii "RoutingTableCacheIPv6") (fun x c => { c with routingTableCacheIPv6 := x })
      fun c => defaultString c.routingTableCacheIPv6 (ascii "routing-table-v6.json"),
    boolVar (ascii "EnableBlacklist") (fun x c => { c with enableBlacklist := x }) false,
    stringVar (ascii "NameBlacklist") (fun x c => { c with nameBlacklist := x }) fun _ => [],
    stringVar (ascii "FileBlacklist") (fun x c => { c with fileBlacklist := x }) fun _ => [],
    boolVar (ascii "OnlyChineseContent") (fun x c => { c with onlyChineseContent := x }) false,
    boolVar (ascii "Statistics") (fun x c => { c with statistics := x }) false,
    stringVar (ascii "BootstrapNodeFile") (fun x c => { c with bootstrapNodeFile := x })
      fun _ => ascii "bootstrap-nodes.txt",
    boolVar (ascii "OnlyWebServer") (fun x c => { c with onlyWebServer := x }) false,
    stringVar (ascii "auth-user") (fun x c => { c with authUser := x }) fun _ => [],
    stringVar (ascii "auth-pass") (fun x c => { c with authPass := x }) fun _ => [],
    stringVar (ascii "session-secret") (fun x c => { c with sessionSecret := x })
      fun _ => ascii "dhtc-secret",
    stringVar (ascii "transmission-url") (fun x c => { c with transmissionURL := x }) fun _ => [],
    stringVar (ascii "transmission-user") (fun x c => { c with transmissionUser := x })
      fun _ => [],
    stringVar (ascii "transmission-pass") (fun x c => { c with transmissionPass := x })
      fun _ => [],
    stringVar (ascii "aria2-url") (fun x c => { c with aria2URL := x }) fun _ => [],
    stringVar (ascii "aria2-token") (fun x c => { c with aria2Token := x }) fun _ => [],
    stringVar (ascii "deluge-url") (fun x c => { c with delugeURL := x }) fun _ => [],
    stringVar (ascii "deluge-pass") (fun x c => { c with delugePass := x }) fun _ => [],
    stringVar (ascii "qbittorrent-url") (fun x c => { c with qbittorrentURL := x }) fun _ => [],
    stringVar (ascii "qbittorrent-user") (fun x c => { c with qbittorrentUser := x }) fun _ => [],
    stringVar (ascii "qbittorrent-pass") (fun x c => { c with qbittorrentPass := x }) fun _ => []]

/-- `ParseArguments`, where `none` is the exit of the program in `flag.Parse`. -/
def parseArguments (env : Environment) : Option Configuration :=
  let configFile := argumentValue (ascii "config") env.args
  let flags := configFlags env configFile
  (parse flags env.args (register flags (loadFile env configFile))).map fun c => { c with
    networkMode := normalizeNetworkMode c.networkMode
    nodeRole := normalizeNodeRole c.nodeRole }

end Config
