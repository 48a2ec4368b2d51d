import Hypringo.Configuration
import Hypringo.Mpris

namespace Hypringo.MprisService
open Hypringo.Lua Hypringo.Configuration Mpris

-- The media patch: the table of a snapshot, and whether there is a session bus.
structure Patch where
  connected : Bool
  media : Media
  deriving DecidableEq, Repr

def unavailable (message : Bytes) : Patch := ⟨false,pushUnavailable message⟩

-- What source:wait returns.
structure Reply where
  changed : Bool
  wakeReady : Bool
  closed : Bool
  waitError : Option Bytes
  deriving DecidableEq, Repr

-- Where the idle handler stands. Messages are served while it rests, and in
-- wait_message once the reply says so; a snapshot of the source that `quit` has
-- taken away raises.
inductive Control where
  | rest
  | greeting
  | polling
  | woken (reply : Reply)
  | retrying
  | raised
  deriving DecidableEq, Repr

structure Service where
  sourceConfig : Reconnecting
  reconnectMs : Int
  source : Option Source
  stopping : Bool
  control : Control
  sent : List Patch

def start (config : Reconnecting) : Service where
  sourceConfig := config
  reconnectMs := config.reconnectMinMs
  source := none
  stopping := false
  control := .rest
  sent := []

inductive Wakeup where
  | failed
  | ready
  | timeout
  deriving DecidableEq, Repr

inductive Event where
  | idle (outcome : Except Bytes Unit)
  | greet (listing : Listing)
  | wait (reply : Reply)
  | resume (listing : Listing)
  | retry (wakeup : Wakeup)
  | reload (config : Reconnecting)
  | quit

def publish (service : Service) (patch : Patch) : Service := { service with sent := service.sent ++ [patch] }

def disconnect (service : Service) (message : Bytes) : Service :=
  let service := { service with source := none }
  if service.stopping then service else publish service (unavailable message)

def publishSnapshot (service : Service) (source : Source) (listing : Listing) : Service :=
  publish { service with source := some (snapshot source listing).1 } ⟨true,(snapshot source listing).2⟩

-- One idle run: open when there is no source, else wait on the one held.
def idle (service : Service) (outcome : Except Bytes Unit) : Service :=
  if service.stopping then service
  else match service.source,outcome with
    | some _,_ => { service with control := .polling }
    | none,.error message => { disconnect service message with control := .retrying }
    | none,.ok () => { service with source := some opened, control := .greeting }

-- The end of connect.
def greet (service : Service) (source : Source) (listing : Listing) : Service :=
  { publishSnapshot service source listing with
    reconnectMs := service.sourceConfig.reconnectMinMs, control := .polling }

-- The end of an idle run.
def settle (service : Service) (reply : Reply) : Service :=
  match reply.waitError with
  | some message => { disconnect service message with control := .rest }
  | none =>
    if reply.closed then { disconnect service (text "MPRIS session bus closed") with control := .rest }
    else { service with control := .rest }

def resume (service : Service) (reply : Reply) (listing : Listing) : Service :=
  if reply.changed then match service.source with
    | some source => settle (publishSnapshot service source listing) reply
    | none => { service with control := .raised }
  else settle service reply

def retry (service : Service) : Wakeup → Service
  | .failed | .ready => { service with control := .rest }
  | .timeout =>
    { service with
      control := .rest
      reconnectMs := min service.sourceConfig.reconnectMaxMs (service.reconnectMs * 2) }

def reload (service : Service) (config : Reconnecting) : Service :=
  { service with
    sourceConfig := config
    reconnectMs := max config.reconnectMinMs (min config.reconnectMaxMs service.reconnectMs) }

def quit (service : Service) : Service := { service with stopping := true, source := none }

def listening : Control → Bool
  | .rest => true
  | .woken reply => reply.wakeReady
  | _ => false

def apply (service : Service) (event : Event) : Service :=
  match event,service.control,service.source with
  | .idle outcome,.rest,_ => idle service outcome
  | .greet listing,.greeting,some source => greet service source listing
  | .wait reply,.polling,some _ => { service with control := .woken reply }
  | .resume listing,.woken reply,_ => resume service reply listing
  | .retry wakeup,.retrying,_ => retry service wakeup
  | .reload config,control,_ => if listening control then reload service config else service
  | .quit,control,_ => if listening control then quit service else service
  | _,_,_ => service

end Hypringo.MprisService
