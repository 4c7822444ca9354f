import LeaseQueue.Json.Format
import LeaseQueue.Settings.Basic
import LeaseQueue.Toml.Document

/-!
# Settings as TOML

A settings file has a table for each part of the settings.  Whatever is left out has its standard
value, and what nobody knows is passed over.  A part may also be an array of its fields in order.
-/

namespace LeaseQueue

/-! ## Parts of settings -/

/-- One of some names, which may also stand alone in a table with nothing under it. -/
def Format.choice {α : Type} (names : List (String × α)) : Format α :=
  { Format.variant names with
    ofJson := fun
      | .str s => (name names).ofJson (.str s)
      | .obj [(k, v)] => do
        let a ← (name names).ofJson (.str k)
        match v with
        | .obj [] | .arr [] => return a
        | _ => throw .noChoice
      | _ => .error .noChoice }

/-- A record whose array may have more items than it has fields. -/
def Record.part {σ α : Type} (r : Record σ α) : Format α :=
  { r.format with
    ofJson := fun
      | .arr items => r.ofJson (.arr (items.take r.fields.length))
      | v => r.ofJson v }

def LogFormat.format : Format LogFormat :=
  .choice ([.text, .json].map fun f => (f.name, f))

def Backend.format : Format Backend :=
  .choice ([.memory, .s3, .gcs].map fun b => (b.name, b))

namespace BrokerSettings

/-- The fields while they are collected. -/
structure Draft where
  address : Option String
  heartbeatInterval : Option UInt64
  heartbeatTimeout : Option Millis

def Draft.finish (d : Draft) : BrokerSettings where
  address := d.address.getD standard.address
  heartbeatInterval := d.heartbeatInterval.getD standard.heartbeatInterval
  heartbeatTimeout := d.heartbeatTimeout.getD standard.heartbeatTimeout

def record : Record Draft BrokerSettings where
  title := "struct BrokerConfig"
  blank := ⟨none, none, none⟩
  fields := [
    .of "address" .text true (·.address) fun v d => { d with address := some v },
    .of "heartbeat_interval_ms" .uint64 true (·.heartbeatInterval)
      fun v d => { d with heartbeatInterval := some v },
    .of "heartbeat_timeout_ms" .int64 true (·.heartbeatTimeout)
      fun v d => { d with heartbeatTimeout := some v }]
  finish d := .ok d.finish

end BrokerSettings

namespace EngineSettings

/-- The fields while they are collected. -/
structure Draft where
  interval : Option UInt64
  heartbeatTimeout : Option Millis
  conflictBackoff : Option UInt64
  maxRetries : Option UInt32

def Draft.finish (d : Draft) : EngineSettings where
  interval := d.interval.getD standard.interval
  heartbeatTimeout := d.heartbeatTimeout.getD standard.heartbeatTimeout
  conflictBackoff := d.conflictBackoff.getD standard.conflictBackoff
  maxRetries := d.maxRetries.getD standard.maxRetries

def record : Record Draft EngineSettings where
  title := "struct EngineConfig"
  blank := ⟨none, none, none, none⟩
  fields := [
    .of "group_commit_interval_ms" .uint64 true (·.interval)
      fun v d => { d with interval := some v },
    .of "job_heartbeat_timeout_ms" .int64 true (·.heartbeatTimeout)
      fun v d => { d with heartbeatTimeout := some v },
    .of "conflict_backoff_ms" .uint64 true (·.conflictBackoff)
      fun v d => { d with conflictBackoff := some v },
    .of "max_retries" .uint32 true (·.maxRetries) fun v d => { d with maxRetries := some v }]
  finish d := .ok d.finish

end EngineSettings

namespace StorageSettings

/-- The fields while they are collected. -/
structure Draft where
  backend : Option Backend
  bucket : Option (Option String)
  folder : Option (Option String)
  region : Option (Option String)
  stateKey : Option String

def Draft.finish (d : Draft) : StorageSettings where
  backend := d.backend.getD standard.backend
  bucket := d.bucket.getD none
  folder := d.folder.getD none
  region := d.region.getD none
  stateKey := d.stateKey.getD standard.stateKey

def record : Record Draft StorageSettings where
  title := "struct StorageConfig"
  blank := ⟨none, none, none, none, none⟩
  fields := [
    .of "backend" Backend.format true (·.backend) fun v d => { d with backend := some v },
    .of "bucket" (.option .text) false (·.bucket) fun v d => { d with bucket := some v },
    .of "prefix" (.option .text) false (·.folder) fun v d => { d with folder := some v },
    .of "region" (.option .text) false (·.region) fun v d => { d with region := some v },
    .of "state_key" .text true (·.stateKey) fun v d => { d with stateKey := some v }]
  finish d := .ok d.finish

end StorageSettings

namespace Store.Limits

/-- The fields while they are collected. -/
structure Draft where
  readsPerMinute : Option (Option UInt32)
  writesPerMinute : Option (Option UInt32)
  writesPerDay : Option (Option UInt64)

def Draft.finish (d : Draft) : Limits :=
  ⟨d.readsPerMinute.getD .none, d.writesPerMinute.getD .none, d.writesPerDay.getD .none⟩

def record : Record Draft Limits where
  title := "struct ThrottleOptions"
  blank := ⟨.none, .none, .none⟩
  fields := [
    .of "max_reads_per_minute" (.option .uint32) true (·.readsPerMinute)
      fun v d => { d with readsPerMinute := some v },
    .of "max_writes_per_minute" (.option .uint32) true (·.writesPerMinute)
      fun v d => { d with writesPerMinute := some v },
    .of "max_writes_per_day" (.option .uint64) true (·.writesPerDay)
      fun v d => { d with writesPerDay := some v }]
  finish d := .ok d.finish

end Store.Limits

/-! ## Whole settings -/

namespace Settings

/-- The parts while they are collected. -/
structure Draft where
  broker : Option BrokerSettings
  engine : Option EngineSettings
  storage : Option StorageSettings
  limits : Option Store.Limits
  logFormat : Option LogFormat

def Draft.finish (d : Draft) : Settings where
  broker := d.broker.getD standard.broker
  engine := d.engine.getD standard.engine
  storage := d.storage.getD standard.storage
  limits := d.limits.getD standard.limits
  logFormat := d.logFormat.getD standard.logFormat

def record : Record Draft Settings where
  title := "struct AppConfig"
  blank := ⟨none, none, none, none, none⟩
  fields := [
    .of "broker" BrokerSettings.record.part true (·.broker)
      fun v d => { d with broker := some v },
    .of "engine" EngineSettings.record.part true (·.engine)
      fun v d => { d with engine := some v },
    .of "storage" StorageSettings.record.part true (·.storage)
      fun v d => { d with storage := some v },
    .of "throttle" Store.Limits.record.part true (·.limits)
      fun v d => { d with limits := some v },
    .of "log_format" LogFormat.format true (·.logFormat)
      fun v d => { d with logFormat := some v }]
  finish d := .ok d.finish

inductive Error where
  /-- There is no file, or its octets are no text. -/
  | unreadable
  /-- The text is no TOML. -/
  | malformed
  | mismatch (cause : Mismatch)
deriving DecidableEq, Repr

/-- Doubles are written out with all their digits. -/
def doubleLayout : Decimal.Layout := ⟨none, none⟩

def Error.message : Error → String
  | .unreadable => "the settings cannot be read"
  | .malformed => "the settings are no TOML"
  | .mismatch cause => cause.message doubleLayout

/-- The settings in a file, if there is one with these octets. -/
def load (contents : Option Bytes) : Except Error Settings :=
  match contents.bind Bytes.toText? with
  | none => .error .unreadable
  | some text =>
    match Toml.parse? text with
    | none => .error .malformed
    | some v => (record.ofJson v).mapError .mismatch

end Settings

end LeaseQueue
