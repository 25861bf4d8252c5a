import PoolKlines.Settings.Basic

/-!
# Settings in JSON

* `Settings.ofJson?` reads settings, any of which may be absent;
* `Settings.toJson` writes all of them.
-/

namespace PoolKlines.Settings

/-- The names of the settings. -/
def fieldNames : List String :=
  ["v1ProgramId", "v2ProgramId", "databasePath", "poolConfigPath", "shardCount", "pageSize",
    "pollIntervalMs", "poolRefreshIntervalMs", "fetchRetries", "retryBackoffMs", "rpcUrl",
    "logLevel", "usdPrices", "pools"]

/-- Read texts by name; the last text of a name counts. -/
def textsOfJson? (j : Json) : Option (AddressMap String) :=
  (j.entries? Json.string?).map fun entries =>
    entries.foldl (fun map (name, text) => map.insert name text) ∅

/-- Read settings. -/
def ofJson? (j : Json) : Option Settings := do
  let [v1ProgramId, v2ProgramId, databasePath, poolConfigPath, shardCount, pageSize, pollInterval,
    poolRefreshInterval, fetchRetries, retryBackoff, rpcUrl, logLevelText, usdPrices, pools] ←
    j.record? fieldNames | none
  return {
    v1ProgramId := ← Json.orElse Json.string? standard.v1ProgramId v1ProgramId
    v2ProgramId := ← Json.orElse Json.string? standard.v2ProgramId v2ProgramId
    databasePath := ← Json.orElse Json.string? standard.databasePath databasePath
    poolConfigPath := ← Json.orElse Json.string? standard.poolConfigPath poolConfigPath
    shardCount := ← Json.orElse Json.uint16? standard.shardCount shardCount
    pageSize := ← Json.orElse Json.uint64? standard.pageSize pageSize
    pollInterval := ← Json.orElse Json.uint64? standard.pollInterval pollInterval
    poolRefreshInterval :=
      ← Json.orElse Json.uint64? standard.poolRefreshInterval poolRefreshInterval
    fetchRetries := ← Json.orElse Json.uint32? standard.fetchRetries fetchRetries
    retryBackoff := ← Json.orElse Json.uint64? standard.retryBackoff retryBackoff
    rpcUrl := ← Json.orElse Json.string? standard.rpcUrl rpcUrl
    logLevelText := ← Json.orElse Json.string? standard.logLevelText logLevelText
    usdPrices := ← Json.orElse textsOfJson? standard.usdPrices usdPrices
    pools := ← Json.orElse (Json.list? Json.string?) standard.pools pools }

/-- Write settings. -/
def toJson (s : Settings) : Json :=
  .object [
    ("v1ProgramId", .string s.v1ProgramId),
    ("v2ProgramId", .string s.v2ProgramId),
    ("databasePath", .string s.databasePath),
    ("poolConfigPath", .string s.poolConfigPath),
    ("shardCount", .integer s.shardCount.toNat),
    ("pageSize", Json.ofUInt64 s.pageSize),
    ("pollIntervalMs", Json.ofUInt64 s.pollInterval),
    ("poolRefreshIntervalMs", Json.ofUInt64 s.poolRefreshInterval),
    ("fetchRetries", .integer s.fetchRetries.toNat),
    ("retryBackoffMs", Json.ofUInt64 s.retryBackoff),
    ("rpcUrl", .string s.rpcUrl),
    ("logLevel", .string s.logLevelText),
    ("usdPrices", .object (s.usdPrices.toList.map fun (mint, text) => (mint, .string text))),
    ("pools", Json.ofStrings s.pools)]

end PoolKlines.Settings
