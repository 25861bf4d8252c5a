import PoolKlines.Decimal.Text
import PoolKlines.Pool.Snapshot
import PoolKlines.Text.Count

/-!
# Settings

* `Settings` says which programs and pools to follow, where things are stored, and how often to ask;
* `Settings.standard` holds the value of every setting that is not given;
* `Settings.override` takes some settings from the environment instead;
* `Settings.logLevel`, `Settings.usdPriceTable` and `Settings.selects` interpret settings.

Times are in milliseconds.
-/

namespace PoolKlines

/-- How much is logged. -/
inductive LogLevel
  | error
  | warn
  | info
  | debug
  | trace
  deriving DecidableEq

namespace LogLevel

/-- All levels, from the first one on. -/
def all : List LogLevel := [error, warn, info, debug, trace]

/-- The name of a level. -/
def name : LogLevel → String
  | error => "ERROR"
  | warn => "WARN"
  | info => "INFO"
  | debug => "DEBUG"
  | trace => "TRACE"

/-- Read a level: its number counted from one, or its name in any case of ASCII letters. -/
def parse? (text : String) : Option LogLevel :=
  match parseUInt64 text with
  | some number => if number = 0 then none else all[number.toNat - 1]?
  | none => all.find? fun level => text.toList.map Char.toUpper = level.name.toList

end LogLevel

/-- A price that is no decimal. -/
structure UsdPriceError where
  mint : String
  text : String
  cause : Decimal.ParseError
  deriving DecidableEq

/-- The wording of the error. -/
def UsdPriceError.message (e : UsdPriceError) : String :=
  "invalid USD price " ++ e.text ++ " for " ++ e.mint ++ ": " ++ e.cause.message

/-- The settings of an indexer. Dollar prices are texts by mint, and no pools means all pools. -/
structure Settings where
  v1ProgramId : String
  v2ProgramId : String
  databasePath : String
  poolConfigPath : String
  shardCount : UInt16
  pageSize : UInt64
  pollInterval : UInt64
  poolRefreshInterval : UInt64
  fetchRetries : UInt32
  retryBackoff : UInt64
  rpcUrl : String
  logLevelText : String
  usdPrices : AddressMap String
  pools : List String

namespace Settings

/-- The settings that hold where nothing is said. -/
def standard : Settings where
  v1ProgramId := "CLMMv1xBx9fbgsfYT3aGP8c3Tvs3WRLgNcDuZCCVgj7R"
  v2ProgramId := "CLMMv2qWkdk4e3sCAkHfvXp4vL9yLpy8ujN3NeGHDy2B"
  databasePath := "indexer.db"
  poolConfigPath := "pools.json"
  shardCount := 4
  pageSize := 200
  pollInterval := 1000
  poolRefreshInterval := 60000
  fetchRetries := 3
  retryBackoff := 250
  rpcUrl := "https://api.mainnet-beta.solana.com"
  logLevelText := "info"
  usdPrices := ∅
  pools := []

/-- Take settings from the environment, where it has them. -/
def override (s : Settings) (environment : String → Option String) : Settings :=
  { s with
    databasePath := (environment "INDEXER_DATABASE_PATH").getD s.databasePath
    rpcUrl := (environment "SOLANA_RPC_URL").getD s.rpcUrl
    logLevelText := (environment "INDEXER_LOG_LEVEL").getD s.logLevelText }

/-- The time between cycles is at least one. -/
def pollTime (s : Settings) : UInt64 := max s.pollInterval 1

/-- The time between refreshes of the pools is at least one. -/
def refreshTime (s : Settings) : UInt64 := max s.poolRefreshInterval 1

/-- A page has room for at least one transaction. -/
def pageLimit (s : Settings) : UInt64 := max s.pageSize 1

/-- The log level; a text that is no level counts as `LogLevel.info`. -/
def logLevel (s : Settings) : LogLevel := (LogLevel.parse? s.logLevelText).getD .info

/-- The dollar prices as decimals. The first price that is none is an error. -/
def usdPriceTable (s : Settings) : Except UsdPriceError (List (String × Decimal)) :=
  s.usdPrices.toList.mapM fun (mint, text) =>
    match Decimal.parse text with
    | .ok price => .ok (mint, price)
    | .error cause => .error ⟨mint, text, cause⟩

/-- The pool is to be followed. -/
def selects (s : Settings) (pool : PoolConfig) : Bool :=
  s.pools.isEmpty || s.pools.contains pool.address

/-- The pools to follow. -/
def select (s : Settings) (pools : List PoolConfig) : List PoolConfig := pools.filter s.selects

@[simp] theorem override_none (s : Settings) : (s.override fun _ => none) = s := rfl

end Settings

end PoolKlines
