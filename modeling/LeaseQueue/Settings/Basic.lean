import LeaseQueue.Broker
import LeaseQueue.Store.Remote
import LeaseQueue.Store.Throttle

/-!
# Settings

What can be set for a broker and the store that it works on, and what holds where nothing is set.
-/

namespace LeaseQueue

/-- How the log is written. -/
inductive LogFormat where
  | text
  | json
deriving DecidableEq, Repr

/-- The kind of store that keeps the document. -/
inductive Backend where
  | memory
  | s3
  | gcs
deriving DecidableEq, Repr

def LogFormat.name : LogFormat → String
  | .text => "text"
  | .json => "json"

def Backend.name : Backend → String
  | .memory => "memory"
  | .s3 => "s3"
  | .gcs => "gcs"

structure BrokerSettings where
  address : String
  /-- Milliseconds. -/
  heartbeatInterval : UInt64
  heartbeatTimeout : Millis
deriving DecidableEq, Repr

structure EngineSettings where
  /-- Milliseconds. -/
  interval : UInt64
  /-- A lease is stale after this time. -/
  heartbeatTimeout : Millis
  /-- Milliseconds. -/
  conflictBackoff : UInt64
  maxRetries : UInt32
deriving DecidableEq, Repr

structure StorageSettings where
  backend : Backend
  bucket : Option String
  /-- All keys are put under this folder of the bucket. -/
  folder : Option String
  region : Option String
  stateKey : String
deriving DecidableEq, Repr

structure Settings where
  broker : BrokerSettings
  engine : EngineSettings
  storage : StorageSettings
  limits : Store.Limits
  logFormat : LogFormat
deriving DecidableEq, Repr

/-! ## What holds where nothing is set -/

def BrokerSettings.standard : BrokerSettings := ⟨"127.0.0.1:8080", 3000, 10000⟩
def EngineSettings.standard : EngineSettings := ⟨50, 30000, 50, 5⟩
def StorageSettings.standard : StorageSettings := ⟨.memory, none, none, none, defaultStateKey⟩
def Settings.standard : Settings := ⟨.standard, .standard, .standard, .none, .text⟩

/-! ## What the settings mean -/

def Settings.engineOptions (s : Settings) : Engine.Options where
  stateKey := s.storage.stateKey
  interval := s.engine.interval.toNat
  heartbeatTimeout := s.engine.heartbeatTimeout
  conflictBackoff := s.engine.conflictBackoff.toNat
  maxRetries := s.engine.maxRetries

def Settings.brokerOptions (s : Settings) : Broker.Options where
  address := s.broker.address
  heartbeatInterval := s.broker.heartbeatInterval.toNat
  heartbeatTimeout := s.broker.heartbeatTimeout
  engine := s.engineOptions

/-- Where objects are kept. -/
inductive Store.Place where
  | memory
  | bucket (name : String) (region : Option String) (adapter : Store.Remote)
deriving DecidableEq, Repr

namespace StorageSettings

/-- The bucket that a backend cannot do without. -/
def requireBucket (s : StorageSettings) : Except Store.Error String :=
  match s.bucket.filter (· ≠ "") with
  | some name => .ok name
  | none => .error (.misconfigured (s.backend.name ++ " backend requires a bucket"))

/-- The store that is meant. -/
def place (s : StorageSettings) : Except Store.Error Store.Place :=
  match s.backend with
  | .memory => .ok .memory
  | .s3 => s.requireBucket.map (.bucket · s.region ⟨s.backend.name, s.folder, .entityTag⟩)
  | .gcs => s.requireBucket.map (.bucket · none ⟨s.backend.name, s.folder, .generation⟩)

end StorageSettings

end LeaseQueue
