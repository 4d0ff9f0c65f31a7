import Mathlib

/-!
# Configuration

Durations are nanoseconds.
-/

namespace Uppercut

structure SchedulerConfig where
  defaultMailboxCapacity : Nat
  loggingEnabled : Bool
  metricReportingEnabled : Bool
  metricReportingInterval : Nat
  delayPrecision : Nat
  actorWorkerThreads : Nat
  extraWorkerThreads : Nat
  eagerShutdownEnabled : Bool
  deriving DecidableEq

namespace SchedulerConfig

/-- `impl Default for SchedulerConfig`. -/
def default : SchedulerConfig where
  defaultMailboxCapacity := 16
  loggingEnabled := true
  metricReportingEnabled := false
  metricReportingInterval := 1000000000
  delayPrecision := 1000000
  actorWorkerThreads := 4
  extraWorkerThreads := 1
  eagerShutdownEnabled := true

def totalThreadsRequired (config : SchedulerConfig) : Nat :=
  config.actorWorkerThreads + config.extraWorkerThreads + 1

end SchedulerConfig

structure ServerConfig where
  eventsCapacity : Nat
  recvBufferSize : Nat
  sendBufferSize : Nat
  deriving DecidableEq

structure ClientConfig where
  eventsCapacity : Nat
  recvBufferSize : Nat
  sendBufferSize : Nat
  deriving DecidableEq

/-- `impl Default for ServerConfig`. -/
def ServerConfig.default : ServerConfig := ⟨1024, 1024, 1024⟩

/-- `impl Default for ClientConfig`. -/
def ClientConfig.default : ClientConfig := ⟨1024, 1024, 1024⟩

structure RemoteConfig where
  enabled : Bool
  listening : String
  server : ServerConfig
  client : ClientConfig
  deriving DecidableEq

/-- The derived `Default`. -/
def RemoteConfig.default : RemoteConfig := ⟨false, "", .default, .default⟩

def RemoteConfig.listeningAt (listening : String) (server : ServerConfig)
    (client : ClientConfig) : RemoteConfig := ⟨true, listening, server, client⟩

structure Config where
  scheduler : SchedulerConfig
  remote : RemoteConfig
  deriving DecidableEq

/-- The derived `Default`. -/
def Config.default : Config := ⟨.default, .default⟩

end Uppercut
