import RequestEngine.Json.Decoder

/-! Settings of an engine, each with its usual value. -/
namespace RequestEngine

structure EngineConfig where
  maxWorkers : UInt64
  maxQueueSize : UInt64
  /-- For functions without a timeout of their own. -/
  defaultTimeoutMs : UInt64
  /-- How long a stop waits for requests that run. -/
  shutdownGraceMs : UInt64
  eventBufferSize : UInt64
  deriving DecidableEq

namespace EngineConfig

def usual : EngineConfig := ⟨4, 100, 30000, 5000, 1000⟩

def toJson (c : EngineConfig) : Json :=
  .object [
    ("default_timeout_ms", .word c.defaultTimeoutMs),
    ("event_buffer_size", .word c.eventBufferSize),
    ("max_queue_size", .word c.maxQueueSize),
    ("max_workers", .word c.maxWorkers),
    ("shutdown_grace_ms", .word c.shutdownGraceMs)]

structure Draft where
  maxWorkers : Option UInt64
  maxQueueSize : Option UInt64
  defaultTimeoutMs : Option UInt64
  shutdownGraceMs : Option UInt64
  eventBufferSize : Option UInt64

def Draft.finish (d : Draft) : EngineConfig where
  maxWorkers := d.maxWorkers.getD usual.maxWorkers
  maxQueueSize := d.maxQueueSize.getD usual.maxQueueSize
  defaultTimeoutMs := d.defaultTimeoutMs.getD usual.defaultTimeoutMs
  shutdownGraceMs := d.shutdownGraceMs.getD usual.shutdownGraceMs
  eventBufferSize := d.eventBufferSize.getD usual.eventBufferSize

def Draft.blank : Draft := ⟨none, none, none, none, none⟩

def fields : List (Json.Decoder.Field Draft) := [
  ⟨"max_workers", (Json.Decoder.word "usize").map fun v d => { d with maxWorkers := some v },
    (·.maxWorkers.isSome), true⟩,
  ⟨"max_queue_size", (Json.Decoder.word "usize").map fun v d => { d with maxQueueSize := some v },
    (·.maxQueueSize.isSome), true⟩,
  ⟨"default_timeout_ms",
    (Json.Decoder.word "u64").map fun v d => { d with defaultTimeoutMs := some v },
    (·.defaultTimeoutMs.isSome), true⟩,
  ⟨"shutdown_grace_ms",
    (Json.Decoder.word "u64").map fun v d => { d with shutdownGraceMs := some v },
    (·.shutdownGraceMs.isSome), true⟩,
  ⟨"event_buffer_size",
    (Json.Decoder.word "usize").map fun v d => { d with eventBufferSize := some v },
    (·.eventBufferSize.isSome), true⟩]

def decoder : Json.Decoder EngineConfig :=
  .record ⟨"ManagerConfig", fields, .blank, fun d => .ok d.finish⟩

end EngineConfig

end RequestEngine
