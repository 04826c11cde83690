import Paperclip.Packages.Texts
import Paperclip.Protocol.Message
import Paperclip.Protocol.Resolution

/-!
# Everything either side may say

The messages of both directions, with all that they carry. Versions of apps are those of a crate, and are
a parameter `V`.

* `Whole.HostMessage`: what a host may say to an app. `Whole.AppMessage`: what an app may say to the host.
* `floats`: the floats in a message.
-/

namespace Paperclip.Protocol

open Packages (AppId)

/-! ## Surfaces and paths -/

/-- How pixels are laid out. -/
inductive PixelFormat where
  | argb8888
  deriving DecidableEq, Repr

def PixelFormat.bytesPerPixel : PixelFormat → ℕ
  | argb8888 => 4

/-- The shape of a drawing surface. -/
structure SurfaceDescriptor where
  extent : Size
  strideBytes : UInt32
  format : PixelFormat
  deriving DecidableEq

/-- Why an app process exists. -/
inductive LaunchReason where
  | fresh
  | restarted
  | restored
  deriving DecidableEq, Repr

/-- Something an installed app may be permitted to do. -/
inductive Capability where
  | storage
  | network
  | sharing
  | packages
  deriving DecidableEq, Repr

/-- What an app may do with a shared directory. -/
inductive ShareAccess where
  | read
  | readWrite
  deriving DecidableEq, Repr

/-- A directory that an app shares with another. -/
structure SharedGrant where
  with_ : AppId
  path : PathBuf
  access : ShareAccess
  deriving DecidableEq

/-- Where the storage of an app is. -/
structure AppPaths where
  assets : PathBuf
  private_ : PathBuf
  temp : PathBuf
  shared : List SharedGrant
  deriving DecidableEq

/-- Identifies one run of one app. 128 bits. -/
structure SessionId where
  get : ℕ
  deriving DecidableEq, Repr

/-- The host's opening message. -/
structure Hello (V : Type) where
  protocol : ProtocolVersion
  session : SessionId
  app : AppId
  version : V
  launch : LaunchReason
  surface : SurfaceDescriptor
  capabilities : List Capability
  paths : AppPaths
  deriving DecidableEq

/-! ## Pointers -/

/-- A position in canvas space. -/
structure Point where
  x : Float32
  y : Float32
  deriving DecidableEq

inductive PointerPhase where
  | hover
  | down
  | moved
  | up
  | cancelled
  deriving DecidableEq, Repr

inductive Pointer where
  | touch
  | pen
  | eraser
  | mouse
  deriving DecidableEq, Repr

/-- Pressure as a fraction of full scale. -/
structure Pressure where
  get : Float32
  deriving DecidableEq

/-- Tilt in degrees from vertical. -/
structure Tilt where
  xDegrees : Float32
  yDegrees : Float32
  deriving DecidableEq

/-- A pointer event in the viewport of an app. A contact has 64 bits. -/
structure PointerEvent where
  at_ : Point
  phase : PointerPhase
  pointer : Pointer
  contact : ℕ
  pressure : Option Pressure
  tilt : Option Tilt
  deriving DecidableEq

/-! ## What Settings asks for -/

structure InstalledAppSummary where
  id : AppId
  name : String
  activeVersion : String
  previousVersion : Option String
  dataBytes : ℕ
  deriving DecidableEq

structure StorageBucket where
  label : String
  bytes : ℕ
  deriving DecidableEq

structure StorageUsage where
  freeBytes : ℕ
  buckets : List StorageBucket
  deriving DecidableEq

structure GrantSummary where
  appId : AppId
  appName : String
  capability : Capability
  inUse : Bool
  deriving DecidableEq

structure CatalogStatus where
  endpoint : String
  lastFetch : Option String
  reachable : Bool
  deriving DecidableEq

structure DiagnosticEntry where
  when : String
  message : String
  deriving DecidableEq

inductive AdminQuery where
  | installedApps
  | storageUsage
  | grants
  | catalogStatus
  | platformInfo
  | diagnostics
  | rollback (app : AppId)
  | uninstall (app : AppId)
  | revokeGrant (app : AppId) (capability : Capability)
  deriving DecidableEq

inductive AdminError where
  | noPreviousRelease
  | notInstalled
  | grantNotHeld
  | notSupported (detail : String)
  | failed (reason : String)
  deriving DecidableEq

/-- The platform's versions. -/
structure PlatformFact where
  paperclipVersion : String
  firmware : String
  activeRelease : String
  deriving DecidableEq

inductive AdminValue where
  | installedApps (apps : List InstalledAppSummary)
  | storageUsage (usage : StorageUsage)
  | grants (grants : List GrantSummary)
  | catalogStatus (status : CatalogStatus)
  | platformInfo (info : PlatformFact)
  | diagnostics (entries : List DiagnosticEntry)
  | rollback (result : Except AdminError Unit)
  | uninstall (result : Except AdminError Unit)
  | revokeGrant (result : Except AdminError Unit)
  deriving DecidableEq

/-! ## System facts -/

inductive SystemQueryKind where
  | time
  | battery
  | network
  | platform
  | admin (query : AdminQuery)
  deriving DecidableEq

structure TimeFact where
  unixMillis : ℕ
  deriving DecidableEq

inductive BatteryState where
  | charging
  | discharging
  | full
  | unknown
  deriving DecidableEq, Repr

structure BatteryFact where
  percent : ℕ
  state : BatteryState
  deriving DecidableEq

structure NetworkFact where
  connected : Bool
  ssid : Option String
  signalPercent : Option ℕ
  deriving DecidableEq

/-- What a query resolved to. -/
inductive SystemValue where
  | time (fact : TimeFact)
  | battery (fact : BatteryFact)
  | network (fact : NetworkFact)
  | platform (fact : PlatformFact)
  | admin (value : AdminValue)
  deriving DecidableEq

inductive SystemDenialReason where
  | backendUnavailable
  | rateLimited
  | unsupported
  | notPermitted
  deriving DecidableEq, Repr

/-- Why a query was refused. -/
structure SystemDenial where
  reason : SystemDenialReason
  detail : Option String
  deriving DecidableEq

structure SystemAnswer where
  id : ℕ
  result : Except SystemDenial SystemValue
  deriving DecidableEq

/-- A system fact changed. -/
inductive SystemEvent where
  | battery (fact : BatteryFact)
  | network (fact : NetworkFact)
  deriving DecidableEq

namespace Whole

/-- A question about a system fact, with what is asked. -/
structure SystemQuery where
  id : ℕ
  kind : SystemQueryKind
  deriving DecidableEq

/-- Everything a host may say to an app. -/
inductive HostMessage (V : Type) where
  | hello (hello : Hello V)
  | lifecycle (event : LifecycleEvent)
  | pointer (event : PointerEvent)
  | draw (request : DrawRequest)
  | systemAnswer (answer : SystemAnswer)
  | systemEvent (event : SystemEvent)
  | goodbye
  deriving DecidableEq

/-- Everything an app may say to the host. -/
inductive AppMessage where
  | ready (ready : Ready)
  | frame (done : FrameDone)
  | request (request : Request)
  | systemQuery (query : SystemQuery)
  | saved (saved : Saved)
  | diagnostic (diagnostic : Diagnostic)
  deriving DecidableEq

end Whole

/-! ## Floats -/

def Point.floats (p : Point) : List Float32 := [p.x, p.y]

def Tilt.floats (t : Tilt) : List Float32 := [t.xDegrees, t.yDegrees]

def PointerEvent.floats (e : PointerEvent) : List Float32 :=
  e.at_.floats ++ ((e.pressure.elim [] fun p => [p.get]) ++ e.tilt.elim [] Tilt.floats)

def Rect.floats (r : Rect) : List Float32 := [r.x, r.y, r.width, r.height]

def Damage.floats : Damage → List Float32
  | full => []
  | regions rects => rects.flatMap Rect.floats

/-- The floats that a host sends. -/
def Whole.HostMessage.floats {V : Type} : Whole.HostMessage V → List Float32
  | pointer event => event.floats
  | _ => []

/-- The floats that an app sends. -/
def Whole.AppMessage.floats : Whole.AppMessage → List Float32
  | frame done => done.damage.floats
  | _ => []

end Paperclip.Protocol
