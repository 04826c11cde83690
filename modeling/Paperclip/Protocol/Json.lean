import Paperclip.Protocol.Codec
import Paperclip.Protocol.Vocabulary
import Paperclip.Wire.Json

/-!
# Messages as JSON

How each message is written as JSON and read back, type by type as the attributes on the types say.

* `WireCrates`: what the codec takes from other crates.
* `hostMessage`, `appMessage`: the formats of the messages of both directions.
* `hostCodec`, `appCodec`: the bodies of frames.
* `survives_iff_finite`: a message that is encoded is decoded just if its floats are finite.
* `framing_round_trips_iff`: so a stream of messages is read back just if the floats of all are.
-/

namespace Paperclip.Protocol

open Packages (AppId decodeUtf8 encodeUtf8 hexValue nibble)
open Wire (Json Format Fields Entries Variant Enumeration Floats AllFinite Outcome Sink)

/-- What the codec takes from other crates: the texts of JSON documents and of floats, and versions. -/
structure WireCrates (V : Type) where
  floats : Floats
  toVec : Json → Option Bytes
  fromSlice : Bytes → Option Json
  fromSlice_toVec (j : Json) (body : Bytes) : toVec j = some body → fromSlice body = some j
  versionText : V → String
  parseVersion : String → Option V
  parse_text (v : V) : parseVersion (versionText v) = some v

/-! ## Texts -/

/-- An app's id. -/
def appId : Format AppId :=
  .text (fun app => if (AppId.parse app.text).isSome then some app.text else none) AppId.parse
    fun app s h => by
      split at h
      · next hsome =>
        obtain ⟨parsed, hparsed⟩ := Option.isSome_iff_exists.1 hsome
        cases h
        rw [hparsed]
        unfold AppId.parse at hparsed
        dsimp only at hparsed
        split at hparsed <;> cases hparsed
        rfl
      · cases h

/-- A path, which must be a text. -/
def pathBuf : Format PathBuf :=
  .text decodeUtf8 (fun s => some (encodeUtf8 s)) fun path s h => by
    unfold decodeUtf8 String.fromUTF8? at h
    split at h
    · cases h
      rfl
    · cases h

/-- The digits of a number, `digits` of them. -/
def hex : (digits : ℕ) → ℕ → List Char
  | 0, _ => []
  | digits + 1, n => hex digits (n / 16) ++ [nibble (n % 16)]

/-- The value of a hex digit of either case. -/
def radixValue (c : Char) : Option ℕ := (hexValue c).or (hexValue c.toLower)

/-- The number that hex digits spell, which a sign may precede. -/
def fromStrRadix16 (text : List Char) : Option ℕ :=
  let digits := (Packages.stripPrefix ['+'] text).getD text
  if digits = [] then none else digits.foldlM (fun n c => (radixValue c).map (n * 16 + ·)) 0

/-- Thirty-two hex digits. -/
def SessionId.toText (id : SessionId) : Option String :=
  if id.get < 2 ^ 128 then some (String.ofList (hex 32 id.get)) else none

def SessionId.ofText (s : String) : Option SessionId :=
  if s.utf8ByteSize ≠ 32 then none else (fromStrRadix16 s.toList).map .mk

/-- What the digits of a number are. -/
theorem nibble_digit : ∀ n < 16, radixValue (nibble n) = some n ∧ nibble n ≠ '+' ∧
    (nibble n).utf8Size = 1 := by
  decide

theorem mem_hex {digits n : ℕ} {c : Char} (h : c ∈ hex digits n) : ∃ m < 16, c = nibble m := by
  induction digits generalizing n with
  | zero => cases h
  | succ digits ih =>
    rcases List.mem_append.1 h with h | h
    · exact ih h
    · exact ⟨n % 16, Nat.mod_lt _ (by decide), List.mem_singleton.1 h⟩

theorem length_hex (digits n : ℕ) : (hex digits n).length = digits := by
  induction digits generalizing n with
  | zero => rfl
  | succ digits ih => rw [hex, List.length_append, ih, List.length_singleton]

theorem foldlM_hex (digits n : ℕ) : (hex digits n).foldlM
    (fun n c => (radixValue c).map (n * 16 + ·)) 0 = some (n % 16 ^ digits) := by
  induction digits generalizing n with
  | zero => simp [hex, Nat.mod_one]
  | succ digits ih =>
    rw [hex, List.foldlM_append, ih]
    simp only [Option.bind_eq_bind, Option.bind_some, List.foldlM_cons, List.foldlM_nil,
      (nibble_digit (n % 16) (Nat.mod_lt _ (by decide))).1, Option.map_some, Option.pure_def,
      Option.some.injEq]
    rw [Nat.pow_succ', Nat.mod_mul, Nat.add_comm, Nat.mul_comm]

theorem fromStrRadix16_hex (digits n : ℕ) (hpos : 0 < digits) :
    fromStrRadix16 (hex digits n) = some (n % 16 ^ digits) := by
  have hsign : Packages.stripPrefix ['+'] (hex digits n) = none := by
    rw [Packages.stripPrefix, if_neg]
    intro hpre
    obtain ⟨rest, hrest⟩ := List.isPrefixOf_iff_prefix.1 hpre
    have hmem : '+' ∈ hex digits n := by
      rw [← hrest]
      simp
    obtain ⟨m, hm, he⟩ := mem_hex hmem
    exact (nibble_digit m hm).2.1 he.symm
  have hne : hex digits n ≠ [] := by
    rw [← List.length_pos_iff, length_hex]
    exact hpos
  rw [fromStrRadix16, hsign, Option.getD_none, if_neg hne, foldlM_hex]

theorem SessionId.ofText_hex {n : ℕ} (h : n < 2 ^ 128) :
    SessionId.ofText (String.ofList (hex 32 n)) = some ⟨n⟩ := by
  have hsize : (String.ofList (hex 32 n)).utf8ByteSize = 32 := by
    have hall : (hex 32 n).map Char.utf8Size = List.replicate 32 1 := by
      rw [List.eq_replicate_iff, List.length_map, length_hex]
      refine ⟨rfl, fun size hsize => ?_⟩
      obtain ⟨c, hc, rfl⟩ := List.mem_map.1 hsize
      obtain ⟨m, hm, rfl⟩ := mem_hex hc
      exact (nibble_digit m hm).2.2
    rw [Packages.utf8ByteSize_ofList, hall]
    rfl
  have hpow : 16 ^ 32 = 2 ^ 128 := by decide
  rw [SessionId.ofText, if_neg (not_not.2 hsize), String.toList_ofList,
    fromStrRadix16_hex 32 _ (by decide), hpow, Nat.mod_eq_of_lt h]
  rfl

def sessionId : Format SessionId :=
  .text SessionId.toText SessionId.ofText fun id s h => by
    unfold SessionId.toText at h
    by_cases hfits : id.get < 2 ^ 128
    · rw [if_pos hfits] at h
      rw [← Option.some.inj h, SessionId.ofText_hex hfits]
    · rw [if_neg hfits] at h
      cases h

/-- A protocol version, as `major.minor`. -/
def protocolVersion : Format ProtocolVersion :=
  .text (fun v => if v.major < 2 ^ 16 ∧ v.minor < 2 ^ 16 then some (Packages.protocolText v) else none)
    Packages.parseProtocol fun v s h => by
      split at h
      · next hfits =>
        cases h
        exact Packages.parseProtocol_text hfits
      · cases h

/-! ## Names -/

def launchReason : Format LaunchReason :=
  .names (fun | .fresh => "fresh" | .restarted => "restarted" | .restored => "restored")
    [.fresh, .restarted, .restored] (by decide) (fun a => by cases a <;> decide)

def exitReason : Format ExitReason :=
  .names
    (fun
      | .switchedAway => "switched-away"
      | .returnToStock => "return-to-stock"
      | .sleep => "sleep"
      | .platformUpdate => "platform-update"
      | .appUpdate => "app-update"
      | .shutdown => "shutdown")
    [.switchedAway, .returnToStock, .sleep, .platformUpdate, .appUpdate, .shutdown] (by decide)
    (fun a => by cases a <;> decide)

def pixelFormat : Format PixelFormat :=
  .names (fun | .argb8888 => "argb8888") [.argb8888] (by decide) (fun a => by cases a; decide)

def shareAccess : Format ShareAccess :=
  .names (fun | .read => "read" | .readWrite => "read-write") [.read, .readWrite] (by decide)
    (fun a => by cases a <;> decide)

def capability : Format Capability :=
  .names
    (fun
      | .storage => "storage"
      | .network => "network"
      | .sharing => "sharing"
      | .packages => "packages")
    [.storage, .network, .sharing, .packages] (by decide) (fun a => by cases a <;> decide)

def drawReason : Format DrawReason :=
  .names
    (fun | .first => "first" | .appRequested => "app-requested" | .hostRequested => "host-requested")
    [.first, .appRequested, .hostRequested] (by decide) (fun a => by cases a <;> decide)

def pointerPhase : Format PointerPhase :=
  .names
    (fun
      | .hover => "hover"
      | .down => "down"
      | .moved => "moved"
      | .up => "up"
      | .cancelled => "cancelled")
    [.hover, .down, .moved, .up, .cancelled] (by decide) (fun a => by cases a <;> decide)

def pointer : Format Pointer :=
  .names
    (fun | .touch => "touch" | .pen => "pen" | .eraser => "eraser" | .mouse => "mouse")
    [.touch, .pen, .eraser, .mouse] (by decide) (fun a => by cases a <;> decide)

def diagnosticLevel : Format DiagnosticLevel :=
  .names (fun | .info => "info" | .warn => "warn" | .error => "error") [.info, .warn, .error]
    (by decide) (fun a => by cases a <;> decide)

def batteryState : Format BatteryState :=
  .names
    (fun
      | .charging => "charging"
      | .discharging => "discharging"
      | .full => "full"
      | .unknown => "unknown")
    [.charging, .discharging, .full, .unknown] (by decide) (fun a => by cases a <;> decide)

def systemDenialReason : Format SystemDenialReason :=
  .names
    (fun
      | .backendUnavailable => "backend-unavailable"
      | .rateLimited => "rate-limited"
      | .unsupported => "unsupported"
      | .notPermitted => "not-permitted")
    [.backendUnavailable, .rateLimited, .unsupported, .notPermitted] (by decide)
    (fun a => by cases a <;> decide)

/-! ## The host's messages -/

def u32 : Format UInt32 :=
  .number UInt32.toNat (fun n => if n < 2 ^ 32 then some (.ofNat n) else none) fun n => by
    rw [if_pos n.toNat_lt, UInt32.ofNat_toNat]

def frameId : Format FrameId :=
  .number FrameId.get (fun n => if h : n < 2 ^ 64 then some ⟨n, h⟩ else none) fun f => dif_pos f.isLt

def size : Entries Size :=
  (((Fields.field "width" u32).and (.field "height" u32) rfl).transport
    ⟨fun (width, height) => ⟨width, height⟩, fun s => (s.width, s.height), fun _ => rfl,
      fun _ => rfl⟩).entries

def surfaceDescriptor : Entries SurfaceDescriptor :=
  (((Fields.field "extent" size.format).and
    ((Fields.field "stride_bytes" u32).and (.field "format" pixelFormat) rfl) rfl).transport
    ⟨fun (extent, stride, format) => ⟨extent, stride, format⟩,
      fun s => (s.extent, s.strideBytes, s.format), fun _ => rfl, fun _ => rfl⟩).entries

def sharedGrant : Entries SharedGrant :=
  (((Fields.field "with" appId).and
    ((Fields.field "path" pathBuf).and (.field "access" shareAccess) rfl) rfl).transport
    ⟨fun (app, path, access) => ⟨app, path, access⟩, fun g => (g.with_, g.path, g.access),
      fun _ => rfl, fun _ => rfl⟩).entries

/-- A list of grants that is missing is empty. -/
def appPaths : Entries AppPaths :=
  (((Fields.field "assets" pathBuf).and
    ((Fields.field "private" pathBuf).and
      ((Fields.field "temp" pathBuf).and
        (.fieldOr (some []) "shared" (sharedGrant.format.plainList fun _ => rfl)) rfl) rfl)
      rfl).transport
    ⟨fun (assets, own, temp, shared) => ⟨assets, own, temp, shared⟩,
      fun p => (p.assets, p.private_, p.temp, p.shared), fun _ => rfl, fun _ => rfl⟩).entries

section

variable {V : Type} (c : WireCrates V)

def version : Format V :=
  .text (fun v => some (c.versionText v)) c.parseVersion fun v s h => by
    rw [← Option.some.inj h, c.parse_text]

def hello : Entries (Hello V) :=
  (((Fields.field "protocol" protocolVersion).and
    ((Fields.field "session" sessionId).and
      ((Fields.field "app" appId).and
        ((Fields.field "version" (version c)).and
          ((Fields.field "launch" launchReason).and
            ((Fields.field "surface" surfaceDescriptor.format).and
              ((Fields.field "capabilities" (capability.plainList fun _ => rfl)).and
                (.field "paths" appPaths.format) rfl) rfl) rfl) rfl) rfl) rfl) rfl).transport
    ⟨fun (protocol, session, app, version, launch, surface, capabilities, paths) =>
        ⟨protocol, session, app, version, launch, surface, capabilities, paths⟩,
      fun h => (h.protocol, h.session, h.app, h.version, h.launch, h.surface, h.capabilities,
        h.paths), fun _ => rfl, fun _ => rfl⟩).entries

end

def lifecycleEvent : Entries LifecycleEvent :=
  ((Enumeration.mk
    [.alone "suspended" .suspended, .alone "resumed" .resumed,
      .merged "prepare-to-exit"
        ((Fields.field "reason" exitReason).and (.field "deadline_ms" (.nat 32)) rfl).entries
        (fun (reason, deadline) => .prepareToExit reason deadline)
        (fun | .prepareToExit reason deadline => some (reason, deadline) | _ => none)
        (fun a b => by cases a <;> simp [Prod.ext_iff, eq_comm])]
    (by decide) (fun a => by cases a <;> rfl)).internal "event" rfl).reading (fun _ => [])
      (fun a => by cases a <;> rfl)

section

variable (fs : Floats)

def point : Entries Point :=
  (((Fields.field "x" (.float fs)).and (.field "y" (.float fs)) rfl).transport
    ⟨fun (x, y) => ⟨x, y⟩, fun p => (p.x, p.y), fun _ => rfl, fun _ => rfl⟩).entries

/-- A pressure is the float that it wraps. -/
def pressure : Format Pressure :=
  (Format.float fs).transport ⟨.mk, Pressure.get, fun _ => rfl, fun _ => rfl⟩

def tilt : Entries Tilt :=
  (((Fields.field "x_degrees" (.float fs)).and (.field "y_degrees" (.float fs)) rfl).transport
    ⟨fun (x, y) => ⟨x, y⟩, fun t => (t.xDegrees, t.yDegrees), fun _ => rfl, fun _ => rfl⟩).entries

/-- The axes that were not reported are not written. -/
def pointerEvent : Entries PointerEvent :=
  ((((Fields.field "at" (point fs).format).and
    ((Fields.field "phase" pointerPhase).and
      ((Fields.field "pointer" pointer).and
        ((Fields.field "contact" (.nat 64)).and
          ((Fields.skipped "pressure" (pressure fs)
            (Format.transport_solid (Format.float_solid fs))).and
            (.skipped "tilt" (tilt fs).format (tilt fs).solid) rfl) rfl) rfl) rfl) rfl).transport
    ⟨fun (at_, phase, pointer, contact, pressure, tilt) =>
        ⟨at_, phase, pointer, contact, pressure, tilt⟩,
      fun e => (e.at_, e.phase, e.pointer, e.contact, e.pressure, e.tilt), fun _ => rfl,
      fun _ => rfl⟩).entries).reading PointerEvent.floats fun _ => rfl

end

def drawRequest : Entries DrawRequest :=
  (((Fields.field "frame" frameId).and
    ((Fields.field "reason" drawReason).and (.field "viewport" size.format) rfl) rfl).transport
    ⟨fun (frame, reason, viewport) => ⟨frame, reason, viewport⟩,
      fun r => (r.frame, r.reason, r.viewport), fun _ => rfl, fun _ => rfl⟩).entries

/-! ## System facts -/

def optionalText : Format (Option String) :=
  Format.string.plainOption Format.text_solid fun _ => rfl

def timeFact : Entries TimeFact :=
  ((Fields.field "unix_millis" (.nat 64)).transport
    ⟨.mk, TimeFact.unixMillis, fun _ => rfl, fun _ => rfl⟩).entries

def batteryFact : Entries BatteryFact :=
  (((Fields.field "percent" (.nat 8)).and (.field "state" batteryState) rfl).transport
    ⟨fun (percent, state) => ⟨percent, state⟩, fun f => (f.percent, f.state), fun _ => rfl,
      fun _ => rfl⟩).entries

/-- Options that are missing are `none`. -/
def networkFact : Entries NetworkFact :=
  (((Fields.field "connected" .bool).and
    ((Fields.fieldOr (some none) "ssid" optionalText).and
      (.fieldOr (some none) "signal_percent"
        ((Format.nat 8).plainOption Format.nat_solid fun _ => rfl)) rfl) rfl).transport
    ⟨fun (connected, ssid, signal) => ⟨connected, ssid, signal⟩,
      fun f => (f.connected, f.ssid, f.signalPercent), fun _ => rfl, fun _ => rfl⟩).entries

def platformFact : Entries PlatformFact :=
  (((Fields.field "paperclip_version" .string).and
    ((Fields.field "firmware" .string).and (.field "active_release" .string) rfl) rfl).transport
    ⟨fun (paperclip, firmware, release) => ⟨paperclip, firmware, release⟩,
      fun f => (f.paperclipVersion, f.firmware, f.activeRelease), fun _ => rfl,
      fun _ => rfl⟩).entries

def adminQuery : Format AdminQuery :=
  (Enumeration.mk
    [.unit "installed-apps" .installedApps, .unit "storage-usage" .storageUsage,
      .unit "grants" .grants, .unit "catalog-status" .catalogStatus,
      .unit "platform-info" .platformInfo, .unit "diagnostics" .diagnostics,
      .newtype "rollback" (Fields.field "app" appId).entries.format .rollback
        (fun | .rollback app => some app | _ => none)
        (fun a b => by cases a <;> simp [eq_comm]),
      .newtype "uninstall" (Fields.field "app" appId).entries.format .uninstall
        (fun | .uninstall app => some app | _ => none)
        (fun a b => by cases a <;> simp [eq_comm]),
      .newtype "revoke-grant"
        ((Fields.field "app" appId).and (.field "capability" capability) rfl).entries.format
        (fun (app, capability) => .revokeGrant app capability)
        (fun | .revokeGrant app capability => some (app, capability) | _ => none)
        (fun a b => by cases a <;> simp [Prod.ext_iff, eq_comm])]
    (by decide) (fun a => by cases a <;> rfl)).external.reading (fun _ => [])
      (fun a => by cases a <;> rfl)

def adminError : Format AdminError :=
  (Enumeration.mk
    [.unit "no-previous-release" .noPreviousRelease, .unit "not-installed" .notInstalled,
      .unit "grant-not-held" .grantNotHeld,
      .newtype "not-supported" (Fields.field "detail" .string).entries.format .notSupported
        (fun | .notSupported detail => some detail | _ => none)
        (fun a b => by cases a <;> simp [eq_comm]),
      .newtype "failed" .string .failed (fun | .failed reason => some reason | _ => none)
        (fun a b => by cases a <;> simp [eq_comm])]
    (by decide) (fun a => by cases a <;> rfl)).external.reading (fun _ => [])
      (fun a => by cases a <;> rfl)

/-- A result, as the name of its case and what is in it. -/
def result {ε α : Type} (error : Format ε) (ok : Format α) (he : ∀ e, error.floats e = [])
    (ha : ∀ a, ok.floats a = []) : Format (Except ε α) :=
  (Enumeration.mk
    [.newtype "Ok" ok .ok (fun | .ok a => some a | _ => none)
        (fun r b => by cases r <;> simp [eq_comm]),
      .newtype "Err" error .error (fun | .error e => some e | _ => none)
        (fun r b => by cases r <;> simp [eq_comm])]
    (by simp [Variant.newtype, Variant.carrying]) (fun r => by cases r <;> rfl)).external.reading
      (fun _ => []) (fun r => by
        cases r with
        | ok a => exact ha a
        | error e => exact he e)

def installedAppSummary : Entries InstalledAppSummary :=
  (((Fields.field "id" appId).and
    ((Fields.field "name" .string).and
      ((Fields.field "active_version" .string).and
        ((Fields.fieldOr (some none) "previous_version" optionalText).and
          (.field "data_bytes" (.nat 64)) rfl) rfl) rfl) rfl).transport
    ⟨fun (id, name, active, previous, bytes) => ⟨id, name, active, previous, bytes⟩,
      fun s => (s.id, s.name, s.activeVersion, s.previousVersion, s.dataBytes), fun _ => rfl,
      fun _ => rfl⟩).entries

def storageBucket : Entries StorageBucket :=
  (((Fields.field "label" .string).and (.field "bytes" (.nat 64)) rfl).transport
    ⟨fun (label, bytes) => ⟨label, bytes⟩, fun b => (b.label, b.bytes), fun _ => rfl,
      fun _ => rfl⟩).entries

def storageUsage : Entries StorageUsage :=
  (((Fields.field "free_bytes" (.nat 64)).and
    (.field "buckets" (storageBucket.format.plainList fun _ => rfl)) rfl).transport
    ⟨fun (free, buckets) => ⟨free, buckets⟩, fun u => (u.freeBytes, u.buckets), fun _ => rfl,
      fun _ => rfl⟩).entries

def grantSummary : Entries GrantSummary :=
  (((Fields.field "app_id" appId).and
    ((Fields.field "app_name" .string).and
      ((Fields.field "capability" capability).and (.field "in_use" .bool) rfl) rfl) rfl).transport
    ⟨fun (app, name, capability, used) => ⟨app, name, capability, used⟩,
      fun g => (g.appId, g.appName, g.capability, g.inUse), fun _ => rfl, fun _ => rfl⟩).entries

def catalogStatus : Entries CatalogStatus :=
  (((Fields.field "endpoint" .string).and
    ((Fields.fieldOr (some none) "last_fetch" optionalText).and (.field "reachable" .bool) rfl)
      rfl).transport
    ⟨fun (endpoint, last, reachable) => ⟨endpoint, last, reachable⟩,
      fun s => (s.endpoint, s.lastFetch, s.reachable), fun _ => rfl, fun _ => rfl⟩).entries

def diagnosticEntry : Entries DiagnosticEntry :=
  (((Fields.field "when" .string).and (.field "message" .string) rfl).transport
    ⟨fun (time, message) => ⟨time, message⟩, fun e => (e.when, e.message), fun _ => rfl,
      fun _ => rfl⟩).entries

def adminResult : Format (Except AdminError Unit) :=
  result adminError .unit (fun _ => rfl) fun _ => rfl

/-- The value of an admin query, which is written beside the tag of a system value. -/
def adminValue : Entries AdminValue :=
  (Enumeration.mk
    [.newtype "installed-apps" (installedAppSummary.format.plainList fun _ => rfl) .installedApps
        (fun | .installedApps apps => some apps | _ => none)
        (fun a b => by cases a <;> simp [eq_comm]),
      .newtype "storage-usage" storageUsage.format .storageUsage
        (fun | .storageUsage usage => some usage | _ => none)
        (fun a b => by cases a <;> simp [eq_comm]),
      .newtype "grants" (grantSummary.format.plainList fun _ => rfl) .grants
        (fun | .grants grants => some grants | _ => none)
        (fun a b => by cases a <;> simp [eq_comm]),
      .newtype "catalog-status" catalogStatus.format .catalogStatus
        (fun | .catalogStatus status => some status | _ => none)
        (fun a b => by cases a <;> simp [eq_comm]),
      .newtype "platform-info" platformFact.format .platformInfo
        (fun | .platformInfo info => some info | _ => none)
        (fun a b => by cases a <;> simp [eq_comm]),
      .newtype "diagnostics" (diagnosticEntry.format.plainList fun _ => rfl) .diagnostics
        (fun | .diagnostics entries => some entries | _ => none)
        (fun a b => by cases a <;> simp [eq_comm]),
      .newtype "rollback" adminResult .rollback (fun | .rollback result => some result | _ => none)
        (fun a b => by cases a <;> simp [eq_comm]),
      .newtype "uninstall" adminResult .uninstall
        (fun | .uninstall result => some result | _ => none)
        (fun a b => by cases a <;> simp [eq_comm]),
      .newtype "revoke-grant" adminResult .revokeGrant
        (fun | .revokeGrant result => some result | _ => none)
        (fun a b => by cases a <;> simp [eq_comm])]
    (by decide) (fun a => by cases a <;> rfl)).entry.reading (fun _ => [])
      (fun a => by cases a <;> rfl)

def systemValue : Entries SystemValue :=
  ((Enumeration.mk
    [.merged "time" timeFact .time (fun | .time fact => some fact | _ => none)
        (fun a b => by cases a <;> simp [eq_comm]),
      .merged "battery" batteryFact .battery (fun | .battery fact => some fact | _ => none)
        (fun a b => by cases a <;> simp [eq_comm]),
      .merged "network" networkFact .network (fun | .network fact => some fact | _ => none)
        (fun a b => by cases a <;> simp [eq_comm]),
      .merged "platform" platformFact .platform (fun | .platform fact => some fact | _ => none)
        (fun a b => by cases a <;> simp [eq_comm]),
      .merged "admin" adminValue .admin (fun | .admin value => some value | _ => none)
        (fun a b => by cases a <;> simp [eq_comm])]
    (by decide) (fun a => by cases a <;> rfl)).internal "fact" rfl).reading (fun _ => [])
      (fun a => by cases a <;> rfl)

def systemDenial : Entries SystemDenial :=
  (((Fields.field "reason" systemDenialReason).and
    (.fieldOr (some none) "detail" optionalText) rfl).transport
    ⟨fun (reason, detail) => ⟨reason, detail⟩, fun d => (d.reason, d.detail), fun _ => rfl,
      fun _ => rfl⟩).entries

def systemAnswer : Entries SystemAnswer :=
  (((Fields.field "id" (.nat 64)).and
    (.field "result" (result systemDenial.format systemValue.format (fun _ => rfl) fun _ => rfl))
      rfl).transport
    ⟨fun (id, result) => ⟨id, result⟩, fun a => (a.id, a.result), fun _ => rfl,
      fun _ => rfl⟩).entries

def systemEvent : Entries SystemEvent :=
  ((Enumeration.mk
    [.merged "battery" batteryFact .battery (fun | .battery fact => some fact | _ => none)
        (fun a b => by cases a <;> simp [eq_comm]),
      .merged "network" networkFact .network (fun | .network fact => some fact | _ => none)
        (fun a b => by cases a <;> simp [eq_comm])]
    (by decide) (fun a => by cases a <;> rfl)).internal "changed" rfl).reading
      (fun _ => []) (fun a => by cases a <;> rfl)

/-! ## What an app sends -/

def ready : Entries Ready :=
  ((Fields.field "protocol" protocolVersion).transport
    ⟨.mk, Ready.protocol, fun _ => rfl, fun _ => rfl⟩).entries

section

variable (fs : Floats)

def rect : Entries Rect :=
  (((Fields.field "x" (.float fs)).and
    ((Fields.field "y" (.float fs)).and
      ((Fields.field "width" (.float fs)).and (.field "height" (.float fs)) rfl) rfl) rfl).transport
    ⟨fun (x, y, width, height) => ⟨x, y, width, height⟩, fun r => (r.x, r.y, r.width, r.height),
      fun _ => rfl, fun _ => rfl⟩).entries

def damage : Entries Damage :=
  ((Enumeration.mk
    [.alone "full" .full,
      .merged "regions" (Fields.field "regions" (rect fs).format.list).entries .regions
        (fun | .regions rects => some rects | _ => none)
        (fun a b => by cases a <;> simp [eq_comm])]
    (by simp [Variant.alone, Variant.only, Variant.merged, Variant.carrying])
    (fun a => by cases a <;> rfl)).internal "damage" rfl).reading Damage.floats
      (fun a => by cases a <;> rfl)

def frameDone : Entries FrameDone :=
  (((Fields.field "frame" frameId).and (.field "damage" (damage fs).format) rfl).transport
    ⟨fun (frame, damage) => ⟨frame, damage⟩, fun d => (d.frame, d.damage), fun _ => rfl,
      fun _ => rfl⟩).entries

end

/-- The id of an app that is to be launched. -/
def launched : Format String :=
  .text (fun app => if (AppId.parse app).isSome then some app else none)
    (fun s => if (AppId.parse s).isSome then some s else none) fun app s h => by
      split at h
      · next hsome =>
        cases h
        exact if_pos hsome
      · cases h

/-- What an app asks for, which is written beside the tag of its message. -/
def request : Entries Request :=
  (Enumeration.mk
    [.unit "redraw" .redraw, .unit "home" .home, .unit "return-to-stock" .returnToStock,
      .newtype "launch" launched .launch (fun | .launch app => some app | _ => none)
        (fun a b => by cases a <;> simp [eq_comm])]
    (by decide) (fun a => by cases a <;> rfl)).entry.reading (fun _ => [])
      (fun a => by cases a <;> rfl)

def systemQueryKind : Format SystemQueryKind :=
  (Enumeration.mk
    [.unit "time" .time, .unit "battery" .battery, .unit "network" .network,
      .unit "platform" .platform,
      .newtype "admin" adminQuery .admin (fun | .admin query => some query | _ => none)
        (fun a b => by cases a <;> simp [eq_comm])]
    (by decide) (fun a => by cases a <;> rfl)).external.reading (fun _ => [])
      (fun a => by cases a <;> rfl)

def systemQuery : Entries Whole.SystemQuery :=
  (((Fields.field "id" (.nat 64)).and (.field "kind" systemQueryKind) rfl).transport
    ⟨fun (id, kind) => ⟨id, kind⟩, fun q => (q.id, q.kind), fun _ => rfl, fun _ => rfl⟩).entries

def saved : Entries Saved :=
  (((Fields.field "reason" exitReason).and (.field "ok" .bool) rfl).transport
    ⟨fun (reason, ok) => ⟨reason, ok⟩, fun s => (s.reason, s.ok), fun _ => rfl,
      fun _ => rfl⟩).entries

def diagnostic : Entries Diagnostic :=
  (((Fields.field "level" diagnosticLevel).and (.field "message" .string) rfl).transport
    ⟨fun (level, message) => ⟨level, message⟩, fun d => (d.level, d.message), fun _ => rfl,
      fun _ => rfl⟩).entries

/-! ## Messages -/

section

variable {V : Type} [DecidableEq V] (c : WireCrates V)

def hostMessage : Entries (Whole.HostMessage V) :=
  ((Enumeration.mk
    [.merged "hello" (hello c) .hello (fun | .hello hello => some hello | _ => none)
        (fun a b => by cases a <;> simp [eq_comm]),
      .merged "lifecycle" lifecycleEvent .lifecycle
        (fun | .lifecycle event => some event | _ => none)
        (fun a b => by cases a <;> simp [eq_comm]),
      .merged "pointer" (pointerEvent c.floats) .pointer
        (fun | .pointer event => some event | _ => none)
        (fun a b => by cases a <;> simp [eq_comm]),
      .merged "draw" drawRequest .draw (fun | .draw request => some request | _ => none)
        (fun a b => by cases a <;> simp [eq_comm]),
      .merged "system-answer" systemAnswer .systemAnswer
        (fun | .systemAnswer answer => some answer | _ => none)
        (fun a b => by cases a <;> simp [eq_comm]),
      .merged "system-event" systemEvent .systemEvent
        (fun | .systemEvent event => some event | _ => none)
        (fun a b => by cases a <;> simp [eq_comm]),
      .alone "goodbye" .goodbye]
    (by simp [Variant.alone, Variant.only, Variant.merged, Variant.carrying])
    (fun a => by cases a <;> rfl)).internal "type" rfl).reading Whole.HostMessage.floats
      (fun a => by cases a <;> rfl)

def appMessage : Entries Whole.AppMessage :=
  ((Enumeration.mk
    [.merged "ready" ready .ready (fun | .ready ready => some ready | _ => none)
        (fun a b => by cases a <;> simp [eq_comm]),
      .merged "frame" (frameDone c.floats) .frame (fun | .frame done => some done | _ => none)
        (fun a b => by cases a <;> simp [eq_comm]),
      .merged "request" request .request (fun | .request request => some request | _ => none)
        (fun a b => by cases a <;> simp [eq_comm]),
      .merged "system-query" systemQuery .systemQuery
        (fun | .systemQuery query => some query | _ => none)
        (fun a b => by cases a <;> simp [eq_comm]),
      .merged "saved" saved .saved (fun | .saved saved => some saved | _ => none)
        (fun a b => by cases a <;> simp [eq_comm]),
      .merged "diagnostic" diagnostic .diagnostic
        (fun | .diagnostic diagnostic => some diagnostic | _ => none)
        (fun a b => by cases a <;> simp [eq_comm])]
    (by simp [Variant.merged, Variant.carrying])
    (fun a => by cases a <;> rfl)).internal "type" rfl).reading Whole.AppMessage.floats
      (fun a => by cases a <;> rfl)

end

/-! ## Bodies of frames -/

/-- The bodies of the values of a format. -/
def WireCrates.body {V M : Type} (c : WireCrates V) (f : Format M) : BodyCodec M where
  toVec m := (f.ser m).bind c.toVec
  fromSlice body := (c.fromSlice body).bind f.de

/-- A value is read back from its body just if its floats are finite. -/
theorem WireCrates.decode_body {V M : Type} (c : WireCrates V) (f : Format M) {m : M} {body : Bytes}
    (h : encode (c.body f) m = .ok body) :
    decode (c.body f) body = .ok m ↔ AllFinite (f.floats m) := by
  obtain ⟨j, hj, hbody⟩ := Option.bind_eq_some_iff.1 (encode_ok h).1
  have hslice : (c.body f).fromSlice body = f.de j := by
    change (c.fromSlice body).bind f.de = _
    rw [c.fromSlice_toVec j body hbody, Option.bind_some]
  rw [decode_ok, hslice, f.law m j hj]

section

variable {V : Type} (c : WireCrates V)

/-- What an app writes. -/
def appCodec : BodyCodec Whole.AppMessage := c.body (appMessage c).format

theorem decode_app {m : Whole.AppMessage} {body : Bytes} (h : encode (appCodec c) m = .ok body) :
    decode (appCodec c) body = .ok m ↔ AllFinite m.floats :=
  c.decode_body (appMessage c).format h

variable [DecidableEq V]

/-- What a host writes. -/
def hostCodec : BodyCodec (Whole.HostMessage V) := c.body (hostMessage c).format

theorem decode_host {m : Whole.HostMessage V} {body : Bytes}
    (h : encode (hostCodec c) m = .ok body) :
    decode (hostCodec c) body = .ok m ↔ AllFinite m.floats :=
  c.decode_body (hostMessage c).format h

/-- A message of either direction that is encoded is decoded as itself just if its floats are
finite. -/
theorem survives_iff_finite :
    (∀ m body, encode (hostCodec c) m = .ok body →
      (decode (hostCodec c) body = .ok m ↔ AllFinite m.floats)) ∧
    (∀ m body, encode (appCodec c) m = .ok body →
      (decode (appCodec c) body = .ok m ↔ AllFinite m.floats)) :=
  ⟨fun _ _ => decode_host c, fun _ _ => decode_app c⟩

/-- So a stream of messages of one direction is read back just if the floats of all are finite. -/
theorem framing_round_trips_iff (outcomes : List Outcome) (writer : Sink UInt8) :
    (∀ ms, writeMessages (hostCodec c) ⟨[], outcomes⟩ ms = (.ok (), writer) →
      (RoundTrips (hostCodec c) ms writer.written ↔ ∀ m ∈ ms, AllFinite m.floats)) ∧
    (∀ ms, writeMessages (appCodec c) ⟨[], outcomes⟩ ms = (.ok (), writer) →
      (RoundTrips (appCodec c) ms writer.written ↔ ∀ m ∈ ms, AllFinite m.floats)) := by
  refine ⟨fun ms hw => ?_, fun ms hw => ?_⟩
  · rw [roundTrips_iff hw]
    refine forall₂_congr fun m hm => ?_
    obtain ⟨body, hbody⟩ := encoded_of_mem hw hm
    rw [keeps_iff hbody, decode_host c hbody]
  · rw [roundTrips_iff hw]
    refine forall₂_congr fun m hm => ?_
    obtain ⟨body, hbody⟩ := encoded_of_mem hw hm
    rw [keeps_iff hbody, decode_app c hbody]

end

/-! ## Samples -/

/-- The text of a float: `1.5`, and made-up texts for the others. -/
def Sample.write (x : Float32) : String :=
  if x = .ofBits 0x3FC00000 then "1.5" else String.ofList (hex 8 x.toBits.toNat)

theorem Sample.write_injective : Function.Injective Sample.write := by
  intro x y h
  have hne (z : Float32) : String.ofList (hex 8 z.toBits.toNat) ≠ "1.5" := by
    intro he
    have hlength := congrArg (fun s : String => s.toList.length) he
    rw [String.toList_ofList, length_hex] at hlength
    revert hlength
    decide
  have hbits (x : Float32) : fromStrRadix16 (hex 8 x.toBits.toNat) = some x.toBits.toNat := by
    have hpow : 16 ^ 8 = 2 ^ 32 := by decide
    rw [fromStrRadix16_hex 8 _ (by decide), hpow, Nat.mod_eq_of_lt x.toBits.toNat_lt]
  unfold Sample.write at h
  split at h <;> split at h
  · simp_all
  · exact absurd h.symm (hne y)
  · exact absurd h (hne x)
  · have hxy := hbits x
    rw [String.ofList_injective h, hbits y] at hxy
    have hb : x.toBits = y.toBits := UInt32.toNat_inj.1 (Option.some.inj hxy.symm)
    obtain ⟨⟨bits, hv⟩⟩ := x
    obtain ⟨⟨bits', hv'⟩⟩ := y
    change bits = bits' at hb
    subst hb
    rfl

open Classical in
/-- Crates that know one document, `tree`, whose text is `body`. -/
noncomputable def Sample.crates (tree : Json) (body : Bytes) : WireCrates String where
  floats :=
    { write := Sample.write
      read := Function.partialInv Sample.write
      read_write := fun x _ => Function.partialInv_left Sample.write_injective x }
  toVec j := if j = tree then some body else none
  fromSlice bytes := if bytes = body then some tree else none
  fromSlice_toVec j bytes h := by
    by_cases hj : j = tree
    · rw [if_pos hj] at h
      rw [if_pos (Option.some.inj h).symm, hj]
    · rw [if_neg hj] at h
      cases h
  versionText := id
  parseVersion := some
  parse_text _ := rfl

/-- A finger is put down. -/
def Sample.pointer (x : Float32) : Whole.HostMessage String :=
  .pointer ⟨⟨x, .ofBits 0x3FC00000⟩, .down, .touch, 7, none, none⟩

/-- The document of it, with what is written of its coordinate. -/
def Sample.pointerTree (x : Json) : Json :=
  .obj [("type", .str "pointer"), ("at", .obj [("x", x), ("y", .float "1.5")]),
    ("phase", .str "down"), ("pointer", .str "touch"), ("contact", .nat 7)]

def Sample.pointerBody (x : String) : Bytes :=
  encodeUtf8 ("\x7b\"type\":\"pointer\",\"at\":\x7b\"x\":" ++ x ++
    ",\"y\":1.5\x7d,\"phase\":\"down\",\"pointer\":\"touch\",\"contact\":7\x7d")

/-- Crates that know the document of a finger put down. -/
noncomputable def Sample.pointerCrates (x : Json) (text : String) : WireCrates String :=
  crates (pointerTree x) (pointerBody text)

/-- One square was drawn. -/
def Sample.frame : Whole.AppMessage :=
  .frame ⟨⟨1, by decide⟩,
    .regions [⟨.ofBits 0x3FC00000, .ofBits 0x3FC00000, .ofBits 0x3FC00000, .ofBits 0x3FC00000⟩]⟩

def Sample.frameTree : Json :=
  .obj [("type", .str "frame"), ("frame", .nat 1),
    ("damage", .obj [("damage", .str "regions"),
      ("regions", .arr [.obj [("x", .float "1.5"), ("y", .float "1.5"), ("width", .float "1.5"),
        ("height", .float "1.5")]])])]

def Sample.frameBody : Bytes :=
  encodeUtf8 ("\x7b\"type\":\"frame\",\"frame\":1,\"damage\":\x7b\"damage\":\"regions\"," ++
    "\"regions\":[\x7b\"x\":1.5,\"y\":1.5,\"width\":1.5,\"height\":1.5\x7d]\x7d\x7d")

theorem Sample.encode_crates {M : Type} (f : Format M) {m : M} {tree : Json} {body : Bytes}
    (hser : f.ser m = some tree) (hlen : body.length ≤ MAX_MESSAGE_BYTES) :
    encode ((crates tree body).body f) m = .ok body := by
  have hvec : ((crates tree body).body f).toVec m = some body := by
    change (f.ser m).bind _ = _
    rw [hser, Option.bind_some]
    exact if_pos rfl
  rw [encode, hvec]
  exact if_neg (by omega)

theorem Sample.fromSlice_crates {M : Type} (f : Format M) (tree : Json) (body : Bytes) :
    ((crates tree body).body f).fromSlice body = f.de tree := by
  simp [WireCrates.body, crates]

/-- A finger put down at a point is decoded as itself, and so is a square that was drawn. -/
theorem survives_samples :
    decode (hostCodec (Sample.pointerCrates (.float "1.5") "1.5")) (Sample.pointerBody "1.5") =
        .ok (Sample.pointer (.ofBits 0x3FC00000)) ∧
      decode (appCodec (Sample.crates Sample.frameTree Sample.frameBody)) Sample.frameBody =
        .ok Sample.frame := by
  have hpoint : AllFinite (Sample.pointer (.ofBits 0x3FC00000)).floats :=
    List.all_eq_true.1 (by rfl)
  have hframe : AllFinite Sample.frame.floats := List.all_eq_true.1 (by rfl)
  exact ⟨((survives_iff_finite _).1 _ _ (Sample.encode_crates _ rfl (by decide +kernel))).2 hpoint,
    ((survives_iff_finite _).2 _ _ (Sample.encode_crates _ rfl (by decide +kernel))).2 hframe⟩

/-- A coordinate that is infinite is encoded as `null`, which is not decoded. -/
theorem infinite_coordinate_malformed :
    encode (hostCodec (Sample.pointerCrates .null "null")) (Sample.pointer (.ofBits 0x7F800000)) =
        .ok (Sample.pointerBody "null") ∧
      decode (hostCodec (Sample.pointerCrates .null "null")) (Sample.pointerBody "null") =
        .error .malformed := by
  refine ⟨Sample.encode_crates _ rfl (by decide +kernel), ?_⟩
  rw [decode, hostCodec, Sample.pointerCrates, Sample.fromSlice_crates]
  rfl

end Paperclip.Protocol
