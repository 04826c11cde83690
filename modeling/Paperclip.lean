import Paperclip.Updater.Steps
import Paperclip.Updater.Departure
import Paperclip.Updater.Orderly
import Paperclip.Packages.Extraction
import Paperclip.Packages.Tearing
import Paperclip.Packages.RoundTrip
import Paperclip.Protocol.Conversation
import Paperclip.Compositor.FrameReader
import Paperclip.Compositor.Releases
import Paperclip.Compositor.Foreground
import Paperclip.Compositor.Sleep
import Paperclip.Store.Undo
import Paperclip.Host.Arrival
import Paperclip.Host.Sessions
import Paperclip.Host.Records
import Paperclip.Host.Breaker
import Paperclip.Host.Progress
import Paperclip.Input.Endings
import Paperclip.Input.ProtocolB
import Paperclip.Device.Discipline
import Paperclip.Device.Stranded
import Paperclip.Device.Record
import Paperclip.Device.Limiter
import Paperclip.Device.Shared
import Paperclip.Host.Registration
import Paperclip.Sudoku.Save
import Paperclip.Chess.Save
import Paperclip.Updater.Document
import Paperclip.Updater.Verdict
import Paperclip.Packages.Independence
import Paperclip.Crash.Strict
import Paperclip.Files.Faults
import Paperclip.Store.Failing
import Paperclip.Boot.Breaker
import Paperclip.Updater.Restart
import Paperclip.Host.Presence
import Paperclip.Host.Deadline
import Paperclip.Compositor.Slots
import Paperclip.Compositor.Gesture
import Paperclip.Protocol.Resolution
import Paperclip.Compositor.Pool
import Paperclip.Protocol.Json
import Paperclip.Toml.Documents
import Paperclip.Packages.Launch
import Paperclip.Packages.Documents
import Paperclip.Sudoku.Solutions
import Paperclip.Sudoku.Play
import Paperclip.Sdk.Damage
import Paperclip.Device.PixelRect
import Paperclip.Sdk.Canvas
import Paperclip.Device.Panel
import Paperclip.Sdk.Uppercase
import Paperclip.Sdk.Text
import Paperclip.Chess.Over
import Paperclip.Chess.Draws
import Paperclip.Telemetry.RunLog
import Paperclip.Sdk.Storage
import Paperclip.Packages.Unpacking
import Paperclip.Updater.Acceptance
import Paperclip.Updater.Bundle
import Paperclip.Device.Nodes
import Paperclip.Device.Digest
import Paperclip.Sdk.Repaint
import Paperclip.Sdk.App
import Paperclip.Sdk.Chrome
import Paperclip.AppStore.Screen
import Paperclip.AppStore.App
import Paperclip.AppStore.Flight
import Paperclip.AppStore.Repaint
import Paperclip.Sudoku.Screen
import Paperclip.Sudoku.Repaint
import Paperclip.Trace.Since
import Paperclip.Settings.Screen
import Paperclip.Settings.Repaint
import Paperclip.Settings.Confirm
import Paperclip.Chess.Screen
import Paperclip.Chess.Press
import Paperclip.Host.Command
import Paperclip.Trace.Line
import Paperclip.Sdk.Drive
import Paperclip.Home.App
import Paperclip.Interactive.Session
import Paperclip.Interactive.Sound
import Paperclip.Interactive.Answered
import Paperclip.Text.Lines
import Paperclip.Sys.Network
import Paperclip.Device.PanelRecord
import Paperclip.Wire.Chunks
import Paperclip.Input.Reader
import Paperclip.Packages.Bounded
import Paperclip.Text.Utf8
import Paperclip.Toml.Quotes
import Paperclip.Store.JournalFile
import Paperclip.Remote.Detached
import Paperclip.Shell.Words
import Paperclip.Shell.Commands
import Paperclip.Remote.CommandLine
import Paperclip.Interactive.Console
import Paperclip.Interactive.Ownership
import Paperclip.Chess.App
import Paperclip.Sudoku.App
import Paperclip.Semver.Order
import Paperclip.Packages.Offers
import Paperclip.AppStore.Survey
import Paperclip.AppStore.Rows
import Paperclip.AppStore.Accepted
import Paperclip.Host.Sweep
import Paperclip.Packages.Publish
