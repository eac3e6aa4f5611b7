import Mathlib.Data.Rat.Floor
import UnifiedCache.Lib.Clock
import UnifiedCache.Status

/-! The health breaker of a store: a window over the latest probes, a window over the
outcomes of the store's own I/O, and a cooldown that grows while the store keeps
failing. Clock readings are nanoseconds, cooldowns milliseconds and the passive window
seconds. -/
namespace UnifiedCache.Health

/-- The fields that do not concern the tracker are left out, but for those that
`Validate` compares. -/
structure StoreHealthConfig where
  healthCheckInterval : Int64 := 10000
  healthCheckTimeout : Int64 := 3000
  healthWindowSize : UInt64 := 8
  failureThreshold : UInt64 := 2
  passiveWindow : Int64 := 60
  passiveFailureThreshold : UInt64 := 2
  initialCooldown : Int64 := 300000
  maxCooldown : Int64 := 3600000
  backoffFactor : ℚ := 2
  stableResetAfter : Int64 := 3600000

def StoreHealthConfig.validate (config : StoreHealthConfig) : Status :=
  if config.healthCheckInterval ≤ 0 ∨ config.healthCheckTimeout ≤ 0 ∨
      config.healthWindowSize = 0 ∨ config.failureThreshold = 0 then
    .InvalidParam "store health values must be positive"
  else if config.healthWindowSize < config.failureThreshold then
    .InvalidParam "failure threshold exceeds health window"
  else if config.healthCheckInterval ≤ config.healthCheckTimeout then
    .InvalidParam "health timeout must be shorter than interval"
  else if config.passiveWindow ≤ 0 ∨ config.passiveFailureThreshold = 0 then
    .InvalidParam "invalid passive health window or failure threshold"
  else if config.initialCooldown < 0 ∨ config.maxCooldown < config.initialCooldown ∨
      config.stableResetAfter ≤ 0 ∨ config.backoffFactor < 1 then
    .InvalidParam "invalid health cooldown or backoff"
  else .OK

structure HealthWindow where
  capacity : UInt64
  results : List Bool := []
  failures : UInt64 := 0

namespace HealthWindow

def evict (window : HealthWindow) : HealthWindow :=
  if window.results.length = window.capacity.toNat then
    match window.results with
    | [] => window
    | front :: rest =>
      { window with
        results := rest
        failures := if front then window.failures else window.failures - 1 }
  else window

def record (healthy : Bool) (window : HealthWindow) : HealthWindow :=
  { window.evict with
    results := window.evict.results ++ [healthy]
    failures := if healthy then window.evict.failures else window.evict.failures + 1 }

def clear (window : HealthWindow) : HealthWindow := { window with results := [], failures := 0 }

def full (window : HealthWindow) : Bool := window.results.length == window.capacity.toNat

end HealthWindow

structure Snapshot where
  time : TimePoint
  successes : UInt64
  failures : UInt64

structure Stats where
  successes : UInt64
  failures : UInt64

/-- `window` is in milliseconds. -/
structure PassiveIoWindow where
  window : Int64
  totalSuccess : UInt64 := 0
  totalFailure : UInt64 := 0
  windowStartSuccess : UInt64 := 0
  windowFailure : UInt64 := 0
  snapshots : List Snapshot := []

namespace PassiveIoWindow

def record (success : Bool) (window : PassiveIoWindow) : PassiveIoWindow :=
  if success then { window with totalSuccess := window.totalSuccess + 1 }
  else { window with totalFailure := window.totalFailure + 1 }

/-- The loop of `UpdateWindowStart` over the snapshots that are left. -/
def expire (cutoff : TimePoint) : List Snapshot → PassiveIoWindow → PassiveIoWindow
  | [], window => { window with snapshots := [] }
  | snapshot :: rest, window =>
    if snapshot.time ≤ cutoff then
      expire cutoff rest { window with
        windowStartSuccess := snapshot.successes, windowFailure := snapshot.failures }
    else { window with snapshots := snapshot :: rest }

def updateWindowStart (now : TimePoint) (window : PassiveIoWindow) : PassiveIoWindow :=
  window.expire (now - TimePoint.milliseconds window.window)
    (window.snapshots ++ [⟨now, window.totalSuccess, window.totalFailure⟩])

def getStats (window : PassiveIoWindow) : Stats where
  successes := window.totalSuccess - window.windowStartSuccess
  failures := window.totalFailure - window.windowFailure

def reset (window : PassiveIoWindow) : PassiveIoWindow :=
  { window with
    windowStartSuccess := window.totalSuccess, windowFailure := window.totalFailure
    snapshots := [] }

end PassiveIoWindow

inductive HealthSource where
  | activeProbe | passiveIo
  deriving DecidableEq, Repr

structure HealthTransition where
  healthy : Bool
  source : HealthSource
  cooldown : Int64
  generation : UInt64
  deriving DecidableEq, Repr

/-- Statuses that describe the request rather than the backend are not recorded. -/
def shouldRecordResult (status : Status) : Bool :=
  decide (status.code ≠ .notFound ∧ status.code ≠ .storeUnhealthy ∧ status.code ≠ .invalidParam ∧
    status.code ≠ .duplicateKey ∧ status.code ≠ .unsupported ∧ status.code ≠ .timeoutInQueue)

structure HealthTracker where
  healthy : Bool := true
  generation : UInt64 := 0
  passiveWindow : PassiveIoWindow
  probeWindow : HealthWindow
  cooldown : Int64 := 0
  recoverAfter : TimePoint := 0
  recoveredAt : Option TimePoint := none

/-- The conversion of a floating value to an integer drops the fraction. -/
def truncate (value : ℚ) : Int := value.num.tdiv value.den

namespace HealthTracker
variable (config : StoreHealthConfig)

def create : HealthTracker where
  passiveWindow := { window := config.passiveWindow * 1000 }
  probeWindow := { capacity := config.healthWindowSize }

def nextCooldown (now : TimePoint) (tracker : HealthTracker) : Int64 :=
  match tracker.recoveredAt with
  | some recoveredAt =>
    if now - recoveredAt < TimePoint.milliseconds config.stableResetAfter then
      Int64.ofInt (truncate (min (tracker.cooldown.toInt * config.backoffFactor)
        config.maxCooldown.toInt))
    else config.initialCooldown
  | none => config.initialCooldown

def toUnhealthy (source : HealthSource) (now : TimePoint) (tracker : HealthTracker) :
    HealthTracker × HealthTransition :=
  let cooldown := tracker.nextCooldown config now
  let generation := tracker.generation + 1
  ({ tracker with
     cooldown, generation
     recoverAfter := now + TimePoint.milliseconds cooldown
     healthy := false
     probeWindow := tracker.probeWindow.clear }, { healthy := false, source, cooldown, generation })

def toHealthy (now : TimePoint) (tracker : HealthTracker) : HealthTracker × HealthTransition :=
  let generation := tracker.generation + 1
  ({ tracker with
     generation
     passiveWindow := tracker.passiveWindow.reset
     recoveredAt := some now
     healthy := true },
    { healthy := true, source := .activeProbe, cooldown := tracker.cooldown, generation })

def recordProbe (generation : UInt64) (result : Status) (now : TimePoint)
    (tracker : HealthTracker) : HealthTracker × Option HealthTransition :=
  if generation ≠ tracker.generation then (tracker, none)
  else
    let tracker := { tracker with probeWindow := tracker.probeWindow.record result.success }
    if tracker.healthy then
      if config.failureThreshold ≤ tracker.probeWindow.failures then
        (tracker.toUnhealthy config .activeProbe now).map id some
      else (tracker, none)
    else if tracker.probeWindow.full ∧ tracker.probeWindow.failures = 0 then
      if tracker.recoverAfter ≤ now then (tracker.toHealthy now).map id some else (tracker, none)
    else (tracker, none)

def recordIo (generation : UInt64) (result : Status) (now : TimePoint)
    (tracker : HealthTracker) : HealthTracker × Option HealthTransition :=
  if shouldRecordResult result ∧ tracker.healthy ∧ generation = tracker.generation then
    let tracker := { tracker with passiveWindow := tracker.passiveWindow.record result.success }
    if result.failure ∧
        config.passiveFailureThreshold ≤ tracker.passiveWindow.getStats.failures then
      (tracker.toUnhealthy config .passiveIo now).map id some
    else (tracker, none)
  else (tracker, none)

def samplePassiveWindow (now : TimePoint) (tracker : HealthTracker) : HealthTracker :=
  { tracker with passiveWindow := tracker.passiveWindow.updateWindowStart now }

end HealthTracker

inductive Call where
  | recordProbe (generation : UInt64) (result : Status) (now : TimePoint)
  | recordIo (generation : UInt64) (result : Status) (now : TimePoint)
  | samplePassiveWindow (now : TimePoint)

namespace Call

def now : Call → TimePoint
  | .recordProbe _ _ now => now
  | .recordIo _ _ now => now
  | .samplePassiveWindow now => now

def generation? : Call → Option UInt64
  | .recordProbe generation _ _ => some generation
  | .recordIo generation _ _ => some generation
  | .samplePassiveWindow _ => none

end Call

def HealthTracker.handle (config : StoreHealthConfig) (tracker : HealthTracker) :
    Call → HealthTracker × Option HealthTransition
  | .recordProbe generation result now => tracker.recordProbe config generation result now
  | .recordIo generation result now => tracker.recordIo config generation result now
  | .samplePassiveWindow now => (tracker.samplePassiveWindow now, none)

end UnifiedCache.Health
