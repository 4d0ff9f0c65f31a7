import Mathlib

/-!
# Monitoring records
-/

namespace Uppercut

structure Meta where
  host : String
  app : String
  tag : String
  deriving DecidableEq

structure LoggerEntry where
  «at» : Nat
  «meta» : Meta
  log : String
  deriving DecidableEq

structure MetricEntry where
  «at» : Nat
  «meta» : Meta
  val : UInt64
  deriving DecidableEq

/-- The counters are `u64`s. They are the source's as long as they are below 2^64. -/
structure SchedulerMetrics where
  name : String := ""
  «at» : Nat := 0
  ticks : Nat := 0
  miss : Nat := 0
  hit : Nat := 0
  messages : Nat := 0
  queues : Nat := 0
  returns : Nat := 0
  spawns : Nat := 0
  delays : Nat := 0
  stops : Nat := 0
  drops : Nat := 0
  failures : Nat := 0
  actors : Nat := 0
  deriving DecidableEq

namespace SchedulerMetrics

def named (name : String) : SchedulerMetrics := { name := name }

/-- Every counter is set back; the name is kept. -/
def reset (m : SchedulerMetrics) : SchedulerMetrics := named m.name

end SchedulerMetrics
end Uppercut
