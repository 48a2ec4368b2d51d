import Hypringo.Configuration
import Hypringo.Json

namespace Hypringo.Remote
open Hypringo.Lua Hypringo.Configuration Pattern Numeral Json

def maxMetadataDelayMs : Int64 := 86400000
def maxTextBytes : Nat := 1024

def Tree.field (members : List (Bytes × Tree)) (name : Bytes) : Option Tree :=
  (members.find? (fun member => member.1 == name)).map Prod.snd

-- Messages are given without the position error puts before them.
def missing (path : Bytes) (optional : Bool) : Except Bytes Bytes :=
  if optional then .ok [] else .error (path ++ text " is missing")

def bounded (path s : Bytes) : Except Bytes Bytes :=
  if maxTextBytes < s.length then .error (path ++ text " exceeds 1024 bytes") else .ok s

def boundedText (value : Option Tree) (path : Bytes) (optional : Bool) : Except Bytes Bytes :=
  match value with
  | none | some .null => missing path optional
  | some (.integer i) => bounded path (integerText i)
  | some (.float f) => bounded path (floatText f)
  | some (.string s) => bounded path s
  | some (.boolean _) | some (.array _) | some (.object _) => .error (path ++ text " must be a string")

def requireObject (value : Option Tree) (path : Bytes) : Except Bytes (List (Bytes × Tree)) :=
  match value with
  | some (.object members) => .ok members
  | _ => .error (path ++ text " must be a JSON object")

-- The headers http.request hands over, those that are read.
structure Headers where
  etag : Option Bytes
  retryAfter : Option Bytes
  xPollInterval : Option Bytes
  xRatelimitRemaining : Option Bytes
  xRatelimitReset : Option Bytes
  deriving DecidableEq, Repr

-- A digit string read as a float is past math.maxinteger.
def parseInteger (value : Option Bytes) : Option Int64 :=
  match value with
  | none => none
  | some s =>
    if plusText digit s then match tonumber s with
      | some (.integer i) => some i
      | _ => none
    else none

-- The loop of exponential_delay, `n` turns before its end.
def doubled (maximum : Int64) : Nat → Int64 → Int64
  | 0,delay => min delay maximum
  | n+1,delay =>
    if maximum ≤ delay ∨ Int64.ofInt (maximum.toInt / 2) < delay then maximum
    else doubled maximum n (delay * 2)

def exponentialDelay (failures minimum maximum : Int64) : Int64 := doubled maximum (failures.toInt - 1).toNat minimum

def atLeast (delay : Int64) : Option Int64 → Int64
  | some seconds => max delay (seconds * 1000)
  | none => delay

def untilReset (headers : Headers) (now : Int64) : Option Int64 :=
  if headers.xRatelimitRemaining = some (text "0") then match parseInteger headers.xRatelimitReset with
    | some reset => if now < reset then some (reset - now) else none
    | none => none
  else none

def failureDelay (headers : Option Headers) (failures : Int64) (config : Configuration.Remote) (now : Int64) : Int64 :=
  let delay := exponentialDelay failures (Int64.ofInt config.retryMinMs) (Int64.ofInt config.retryMaxMs)
  let delay := atLeast delay (parseInteger (headers.bind Headers.retryAfter))
  let delay := atLeast delay (headers.bind (untilReset · now))
  min delay maxMetadataDelayMs

def successDelay (headers : Headers) (intervalMs : Int64) : Int64 :=
  min (atLeast intervalMs (parseInteger headers.xPollInterval)) maxMetadataDelayMs

-- A patch by the documents of its fields.
abbrev Patch := List (Bytes × Doc)

def failurePatch (message : Bytes) (failures lastSuccessAt delayMs now : Int64) : Patch :=
  [(text "error",.string (message.take maxTextBytes)),
   (text "failures",.sint failures.toInt),
   (text "last_attempt_at",.sint now.toInt),
   (text "refresh_in_ms",.sint delayMs.toInt),
   (text "stale",.boolean (decide (0 < lastSuccessAt)))]

def successMetadata (delayMs now : Int64) : Patch :=
  [(text "available",.boolean true),
   (text "error",.string []),
   (text "failures",.sint 0),
   (text "last_attempt_at",.sint now.toInt),
   (text "last_success_at",.sint now.toInt),
   (text "refresh_in_ms",.sint delayMs.toInt),
   (text "stale",.boolean false)]

structure Weather where
  condition : Bytes
  feelsLike : Bytes
  location : Bytes
  precipitation : Bytes
  pressure : Bytes
  temperature : Bytes
  wind : Bytes
  deriving DecidableEq, Repr

def Weather.fields (weather : Weather) : Patch :=
  [(text "condition",.string weather.condition),
   (text "feels_like",.string weather.feelsLike),
   (text "location",.string weather.location),
   (text "precipitation",.string weather.precipitation),
   (text "pressure",.string weather.pressure),
   (text "temperature",.string weather.temperature),
   (text "wind",.string weather.wind)]

def weatherText (members : List (Bytes × Tree)) (name : Bytes) : Except Bytes Bytes :=
  boundedText (Tree.field members name) (text "weather response." ++ name) false

def parseWeather (y : Yyjson) (body : Bytes) : Except Bytes Weather := do
  let value ← decode y body
  let members ← requireObject (some value) (text "weather response")
  let condition ← weatherText members (text "cond")
  let feelsLike ← weatherText members (text "temp_like")
  let location ← weatherText members (text "loc")
  let precipitation ← weatherText members (text "precip")
  let pressure ← weatherText members (text "pressure")
  let temperature ← weatherText members (text "temp")
  let wind ← weatherText members (text "wind")
  return ⟨condition,feelsLike,location,precipitation,pressure,temperature,wind⟩

structure Notification where
  id : Bytes
  reason : Bytes
  fullName : Bytes
  htmlUrl : Bytes
  latestCommentUrl : Bytes
  title : Bytes
  type : Bytes
  url : Bytes
  unread : Bool
  updatedAt : Bytes
  deriving DecidableEq, Repr

def Notification.document (notification : Notification) : Doc :=
  .object
    [(text "id",.string notification.id),
     (text "reason",.string notification.reason),
     (text "repository",.object
       [(text "full_name",.string notification.fullName),(text "html_url",.string notification.htmlUrl)]),
     (text "subject",.object
       [(text "latest_comment_url",.string notification.latestCommentUrl),
        (text "title",.string notification.title),
        (text "type",.string notification.type),
        (text "url",.string notification.url)]),
     (text "unread",.boolean notification.unread),
     (text "updated_at",.string notification.updatedAt)]

def truth : Option Tree → Bool
  | some (.boolean true) => true
  | _ => false

def notificationPath (index : Nat) (suffix : String) : Bytes :=
  text "GitHub notification " ++ digits index ++ text suffix

def projectNotification (value : Tree) (index : Nat) : Except Bytes Notification := do
  let path := notificationPath index
  let value ← requireObject (some value) (path "")
  let subject ← requireObject (Tree.field value (text "subject")) (path ".subject")
  let repository ← requireObject (Tree.field value (text "repository")) (path ".repository")
  let id ← boundedText (Tree.field value (text "id")) (path ".id") false
  let reason ← boundedText (Tree.field value (text "reason")) (path ".reason") true
  let fullName ← boundedText (Tree.field repository (text "full_name")) (path ".repository.full_name") false
  let htmlUrl ← boundedText (Tree.field repository (text "html_url")) (path ".repository.html_url") true
  let latestCommentUrl ←
    boundedText (Tree.field subject (text "latest_comment_url")) (path ".subject.latest_comment_url") true
  let title ← boundedText (Tree.field subject (text "title")) (path ".subject.title") false
  let type ← boundedText (Tree.field subject (text "type")) (path ".subject.type") false
  let url ← boundedText (Tree.field subject (text "url")) (path ".subject.url") true
  let updatedAt ← boundedText (Tree.field value (text "updated_at")) (path ".updated_at") true
  return ⟨id,reason,fullName,htmlUrl,latestCommentUrl,title,type,url,truth (Tree.field value (text "unread")),updatedAt⟩

def requireArray : Tree → Except Bytes (List Tree)
  | .array items => .ok items
  | _ => .error (text "GitHub response must be a JSON array")

def projectItems (items : List Tree) (maximum : Nat) : Except Bytes (List Notification) :=
  ((items.take maximum).zipIdx 1).mapM (fun item => projectNotification item.1 item.2)

def parseGithub (y : Yyjson) (body : Bytes) (maximum : Nat) : Except Bytes (List Notification) := do
  let value ← decode y body
  let items ← requireArray value
  projectItems items maximum

def notificationsField (notifications : List Notification) : Bytes × Doc :=
  (text "notifications",.array (notifications.map Notification.document))

end Hypringo.Remote
