import Hypringo.ActionQueue
import Hypringo.Actions
import Hypringo.AudioResources
import Hypringo.AudioService
import Hypringo.AudioSource
import Hypringo.Backoff
import Hypringo.Blocks
import Hypringo.Brightness
import Hypringo.Broadcast
import Hypringo.Circular
import Hypringo.Clearing
import Hypringo.ClientTable
import Hypringo.CommandLine
import Hypringo.CommandReader
import Hypringo.ConfigEffects
import Hypringo.ConfigFields
import Hypringo.ConfigLoad
import Hypringo.ConfigSections
import Hypringo.ConfigSettings
import Hypringo.ConfigValid
import Hypringo.Configuration
import Hypringo.Constructor
import Hypringo.Control
import Hypringo.ControlResources
import Hypringo.ControlSession
import Hypringo.DeviceScan
import Hypringo.Devices
import Hypringo.Dispatch
import Hypringo.Doctor
import Hypringo.Document
import Hypringo.Embedding
import Hypringo.Fleet
import Hypringo.GithubCache
import Hypringo.Handles
import Hypringo.HttpHeap
import Hypringo.HttpResponse
import Hypringo.Hyprland
import Hypringo.HyprlandEvents
import Hypringo.HyprlandOrder
import Hypringo.HyprlandService
import Hypringo.Interleaving
import Hypringo.Ipc
import Hypringo.Json
import Hypringo.JsonAcceptance
import Hypringo.JsonCanonical
import Hypringo.JsonRecode
import Hypringo.JsonRoundtrip
import Hypringo.JsonStack
import Hypringo.JsonText
import Hypringo.LongDouble
import Hypringo.Lua.Alike
import Hypringo.Lua.Effects
import Hypringo.Lua.Heap
import Hypringo.Lua.Numeral
import Hypringo.Lua.Pattern
import Hypringo.Lua.Quoted
import Hypringo.Lua.Raise
import Hypringo.Lua.Structural
import Hypringo.Lua.Value
import Hypringo.Lua.World
import Hypringo.Mpris
import Hypringo.MprisHeap
import Hypringo.MprisService
import Hypringo.MprisSignals
import Hypringo.PlayerSelection
import Hypringo.Reconnect
import Hypringo.Reload
import Hypringo.Remote
import Hypringo.RemoteDelay
import Hypringo.RemoteServices
import Hypringo.RemoteStore
import Hypringo.Reports
import Hypringo.RetryAfter
import Hypringo.Runs
import Hypringo.Schema
import Hypringo.SchemaStability
import Hypringo.Selection
import Hypringo.Settling
import Hypringo.SocketPath
import Hypringo.State
import Hypringo.StateChange
import Hypringo.StateDelivery
import Hypringo.StateMerge
import Hypringo.StateService
import Hypringo.SwapRemove
import Hypringo.SystemService
import Hypringo.Tokens
import Hypringo.Unpacking
import Hypringo.ValidateValue
import Hypringo.Wire
