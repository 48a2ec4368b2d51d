import Hypringo.Devices
import Hypringo.Mpris

namespace Hypringo.HttpResponse
open Hypringo.Lua Control Devices Mpris

def sizeLimit : Nat := 2^64
def maxHeaderValueSize : Nat := 8192
def colon : UInt8 := 58
def slash : UInt8 := 47

-- What libcurl hands to a callback: `count` items of `size` bytes.
structure Chunk where
  size : Nat
  count : Nat
  data : Bytes
  measured : data.length = size * count

-- `data` is the whole allocated block, empty while it is NULL.
structure Buffer where
  data : Bytes
  size : Nat
  capacity : Nat
  maximum : Nat
  exceeded : Bool

-- Doubling stays at or below the maximum, so it never wraps.
def grow (maximum required capacity : Nat) (positive : 0 < capacity) : Nat :=
  if capacity < required then
    if maximum / 2 < capacity then maximum else grow maximum required (capacity * 2) (by omega)
  else capacity
termination_by required - capacity

def initialCapacity (capacity : Nat) : Nat := if capacity = 0 then 4096 else capacity

theorem initialCapacity_pos (capacity : Nat) : 0 < initialCapacity capacity := by
  unfold initialCapacity
  split <;> omega

-- What realloc answers: NULL, or the bytes found where the block grew.
abbrev Memory := Option (Nat → UInt8)

def reserveBuffer (buffer : Buffer) (required : Nat) (memory : Memory) : Buffer × Bool :=
  if required ≤ buffer.capacity then (buffer,true)
  else
    let capacity := grow buffer.maximum required (initialCapacity buffer.capacity) (initialCapacity_pos _)
    if capacity < required then (buffer,false)
    else match memory with
      | none => (buffer,false)
      | some fresh =>
        ({ buffer with
            data := buffer.data.take capacity ++ (List.range' buffer.data.length (capacity - buffer.data.length)).map fresh
            capacity := capacity },true)

-- count > SIZE_MAX / size
def overflows (chunk : Chunk) : Bool := decide (chunk.size ≠ 0 ∧ (sizeLimit - 1) / chunk.size < chunk.count)

-- A callback refuses its data by returning another number than its length.
def writeResponse (buffer : Buffer) (chunk : Chunk) (memory : Memory) : Buffer × Nat :=
  if overflows chunk then ({ buffer with exceeded := true },0)
  else
    let bytes := chunk.size * chunk.count
    if (buffer.maximum + sizeLimit - buffer.size) % sizeLimit < bytes then ({ buffer with exceeded := true },0)
    else match reserveBuffer buffer ((buffer.size + bytes) % sizeLimit) memory with
      | (reserved,false) => (reserved,0)
      | (reserved,true) =>
        ({ reserved with data := memcpy reserved.data reserved.size chunk.data, size := reserved.size + bytes },bytes)

inductive Field where
  | etag
  | lastModified
  | retryAfter
  | xPollInterval
  | xRatelimitRemaining
  | xRatelimitReset
  deriving DecidableEq, Repr

def Field.name : Field → Bytes
  | .etag => text "etag"
  | .lastModified => text "last-modified"
  | .retryAfter => text "retry-after"
  | .xPollInterval => text "x-poll-interval"
  | .xRatelimitRemaining => text "x-ratelimit-remaining"
  | .xRatelimitReset => text "x-ratelimit-reset"

def Field.all : List Field :=
  [.etag,.lastModified,.retryAfter,.xPollInterval,.xRatelimitRemaining,.xRatelimitReset]

structure Response where
  buffer : Buffer
  headers : Field → Option Bytes
  headersExceeded : Bool

def opened (maximum : Nat) : Response := ⟨⟨[],0,0,maximum,false⟩,fun _ => none,false⟩

def headerNameEqual (name expected : Bytes) : Bool := name.map lowerByte == expected.map lowerByte

def blankEnd (b : UInt8) : Bool := b == 13 || b == 10 || isSpace b

-- The copy replace_header makes of a value.
def headerCopy (value : Bytes) : Bytes := ((value.reverse.dropWhile blankEnd).reverse).dropWhile isSpace

def statusLine (line : Bytes) : Bool := decide ((line.take 4).map lowerByte = text "http") && (line.drop 4).head? == some slash

def target (name : Bytes) : Option Field := Field.all.find? fun field => headerNameEqual name field.name

def readResponseHeader (response : Response) (chunk : Chunk) (allocated : Bool) : Response × Nat :=
  if overflows chunk then (response,0)
  else
    let bytes := chunk.size * chunk.count
    if statusLine chunk.data then
      (⟨{ response.buffer with size := 0, exceeded := false },fun _ => none,false⟩,bytes)
    else if !chunk.data.contains colon then (response,bytes)
    else
      let name := chunk.data.takeWhile (· != colon)
      let value := chunk.data.drop (name.length + 1)
      match target name with
      | none => (response,bytes)
      | some field =>
        if maxHeaderValueSize < value.length then ({ response with headersExceeded := true },0)
        else if allocated then
          ({ response with headers := Function.update response.headers field (some (headerCopy value)) },bytes)
        else (response,bytes)

inductive Callback where
  | header (chunk : Chunk) (allocated : Bool)
  | body (chunk : Chunk) (memory : Memory)

def Callback.chunk : Callback → Chunk
  | .header chunk _ => chunk
  | .body chunk _ => chunk

def Callback.allocates : Callback → Bool
  | .header _ allocated => allocated
  | .body _ memory => memory.isSome

def step (response : Response) : Callback → Response × Nat
  | .header chunk allocated => readResponseHeader response chunk allocated
  | .body chunk memory =>
    ({ response with buffer := (writeResponse response.buffer chunk memory).1 },(writeResponse response.buffer chunk memory).2)

def refuses (response : Response) (callback : Callback) : Bool :=
  (step response callback).2 != callback.chunk.data.length

-- libcurl stops at the first callback that refuses.
def perform : Response → List Callback → Response × Bool
  | response,[] => (response,true)
  | response,callback :: rest =>
    if refuses response callback then ((step response callback).1,false) else perform (step response callback).1 rest

-- What the response table holds of a finished transfer.
def body (response : Response) : Bytes := response.buffer.data.take response.buffer.size
def returnedHeader (response : Response) (field : Field) : Option Bytes := (response.headers field).map cString

-- The callbacks since the last status line, what they carried and what they
-- named.
def isStatus : Callback → Bool
  | .header chunk _ => statusLine chunk.data
  | .body _ _ => false

def sinceStatus (callbacks : List Callback) : List Callback :=
  (callbacks.reverse.takeWhile fun callback => !isStatus callback).reverse

def bodyData : Callback → Bytes
  | .header _ _ => []
  | .body chunk _ => chunk.data

def bodySince (callbacks : List Callback) : Bytes := (sinceStatus callbacks).flatMap bodyData

def trim (value : Bytes) : Bytes := ((value.reverse.dropWhile isSpace).reverse).dropWhile isSpace

def headerValue (field : Field) : Callback → Option Bytes
  | .header chunk _ =>
    if chunk.data.contains colon = true ∧ (chunk.data.takeWhile (· != colon)).map lowerByte = field.name then
      some (trim (chunk.data.drop ((chunk.data.takeWhile (· != colon)).length + 1)))
    else none
  | .body _ _ => none

def headerSince (field : Field) (callbacks : List Callback) : Option Bytes :=
  ((sinceStatus callbacks).filterMap (headerValue field)).getLast?

structure Bounded (buffer : Buffer) : Prop where
  maximum : buffer.size ≤ buffer.maximum
  capacity : buffer.size ≤ buffer.capacity

structure Sound (maximum : Nat) (callbacks : List Callback) (response : Response) : Prop where
  maximum : response.buffer.maximum = maximum
  block : response.buffer.data.length = response.buffer.capacity
  bounded : Bounded response.buffer
  body : response.buffer.data.take response.buffer.size = bodySince callbacks
  headers : ∀ field, response.headers field = headerSince field callbacks

theorem grow_reaches {maximum required capacity : Nat} (positive : 0 < capacity) (fits : required ≤ maximum) :
    required ≤ grow maximum required capacity positive := by
  induction capacity,positive using grow.induct maximum required with
  | case1 capacity positive short half =>
    rw [grow,if_pos short,if_pos half]
    exact fits
  | case2 capacity positive short half ih =>
    rw [grow,if_pos short,if_neg half]
    exact ih
  | case3 capacity positive enough =>
    rw [grow,if_neg enough]
    omega

theorem reserveBuffer_accepts (buffer : Buffer) {required : Nat} (fits : required ≤ buffer.maximum) (fresh : Nat → UInt8) :
    (reserveBuffer buffer required (some fresh)).2 = true := by
  unfold reserveBuffer
  split
  · rfl
  · have reached := grow_reaches (initialCapacity_pos buffer.capacity) fits
    dsimp only
    rw [if_neg (by omega)]

-- Reserving moves no byte that is in use.
structure Grown (before after : Buffer) : Prop where
  size : after.size = before.size
  maximum : after.maximum = before.maximum
  block : after.data.length = after.capacity
  capacity : before.capacity ≤ after.capacity
  kept : ∀ count ≤ before.capacity, after.data.take count = before.data.take count

theorem reserveBuffer_grown {buffer : Buffer} (block : buffer.data.length = buffer.capacity) (required : Nat) (memory : Memory) :
    Grown buffer (reserveBuffer buffer required memory).1 := by
  have same : Grown buffer buffer := ⟨rfl,rfl,block,le_refl _,fun _ _ => rfl⟩
  unfold reserveBuffer
  split
  · exact same
  · rename_i short
    dsimp only
    split
    · exact same
    · rename_i reached
      cases memory with
      | none => exact same
      | some fresh =>
        have larger : buffer.capacity ≤
            grow buffer.maximum required (initialCapacity buffer.capacity) (initialCapacity_pos _) := by omega
        dsimp only
        rw [List.take_of_length_le (by omega)]
        refine ⟨rfl,rfl,?_,larger,?_⟩
        · rw [List.length_append,List.length_map,List.length_range',block]
          exact Nat.add_sub_cancel' larger
        · intro count inside
          exact List.take_append_of_le_length (by omega)

theorem reserveBuffer_room {buffer : Buffer} {required : Nat} {memory : Memory}
    (accepted : (reserveBuffer buffer required memory).2 = true) :
    required ≤ (reserveBuffer buffer required memory).1.capacity := by
  unfold reserveBuffer at accepted ⊢
  split
  · assumption
  · rename_i short
    rw [if_neg short] at accepted
    dsimp only at accepted ⊢
    split
    · rename_i unreached
      rw [if_pos unreached] at accepted
      cases accepted
    · rename_i reached
      rw [if_neg reached] at accepted
      cases memory with
      | none => cases accepted
      | some fresh =>
        dsimp only
        omega

theorem overflows_large {chunk : Chunk} (large : overflows chunk = true) : sizeLimit ≤ chunk.data.length := by
  simp only [overflows,decide_eq_true_eq] at large
  obtain ⟨some,more⟩ := large
  have product := (Nat.div_lt_iff_lt_mul (Nat.pos_of_ne_zero some)).mp more
  rw [chunk.measured,Nat.mul_comm]
  omega

def maximumLimit : Nat := 16 * 1024 * 1024

theorem room_left {buffer : Buffer} (bounded : Bounded buffer) (limit : buffer.maximum ≤ maximumLimit) :
    (buffer.maximum + sizeLimit - buffer.size) % sizeLimit = buffer.maximum - buffer.size := by
  have fits := bounded.maximum
  have wide : maximumLimit < sizeLimit := by decide
  have shifted : buffer.maximum + sizeLimit - buffer.size = buffer.maximum - buffer.size + sizeLimit := by omega
  rw [shifted,Nat.add_mod_right]
  exact Nat.mod_eq_of_lt (by omega)

theorem writeResponse_refuses {buffer : Buffer} {chunk : Chunk} (bounded : Bounded buffer)
    (limit : buffer.maximum ≤ maximumLimit) (beyond : buffer.maximum < buffer.size + chunk.data.length) (memory : Memory) :
    writeResponse buffer chunk memory = ({ buffer with exceeded := true },0) := by
  have fits := bounded.maximum
  unfold writeResponse
  split
  · rfl
  · dsimp only
    rw [room_left bounded limit,← chunk.measured,if_pos (by omega)]

theorem writeResponse_accepts {buffer : Buffer} (chunk : Chunk) (block : buffer.data.length = buffer.capacity)
    (bounded : Bounded buffer) (limit : buffer.maximum ≤ maximumLimit)
    (within : buffer.size + chunk.data.length ≤ buffer.maximum) (fresh : Nat → UInt8) :
    ∃ after, writeResponse buffer chunk (some fresh) = (after,chunk.data.length) ∧
      after.size = buffer.size + chunk.data.length ∧ after.maximum = buffer.maximum ∧
      after.data.length = after.capacity ∧ after.size ≤ after.capacity ∧ buffer.capacity ≤ after.capacity ∧
      after.data.take after.size = buffer.data.take buffer.size ++ chunk.data := by
  have wide : maximumLimit < sizeLimit := by decide
  have narrow : overflows chunk = false := by
    by_contra large
    have huge := overflows_large (by simpa using large)
    omega
  have required : (buffer.size + chunk.data.length) % sizeLimit = buffer.size + chunk.data.length :=
    Nat.mod_eq_of_lt (by omega)
  have accepted := reserveBuffer_accepts buffer within fresh
  have room := reserveBuffer_room accepted
  have grown := reserveBuffer_grown block (buffer.size + chunk.data.length) (some fresh)
  obtain ⟨reserved,same⟩ : ∃ reserved, reserveBuffer buffer (buffer.size + chunk.data.length) (some fresh) = (reserved,true) :=
    ⟨_,Prod.ext rfl accepted⟩
  rw [same] at room grown
  have space : reserved.size + chunk.data.length ≤ reserved.data.length := by
    rw [grown.size,grown.block]
    exact room
  obtain ⟨taken,length⟩ := memcpy_take reserved.data chunk.data space
  refine ⟨{ reserved with
      data := memcpy reserved.data reserved.size chunk.data, size := reserved.size + chunk.data.length },
    ?_,?_,grown.maximum,length.trans grown.block,?_,grown.capacity,?_⟩
  · unfold writeResponse
    rw [if_neg (by simp [narrow])]
    dsimp only
    rw [room_left bounded limit,← chunk.measured,if_neg (by omega),required,same]
  · exact congrArg (· + chunk.data.length) grown.size
  · rw [grown.block] at space
    exact space
  · dsimp only
    rw [taken,grown.size,grown.kept _ bounded.capacity]

-- The trailing loop names two bytes more than isspace already has.
theorem headerCopy_trim (value : Bytes) : headerCopy value = trim value := by
  have same : blankEnd = isSpace := by
    funext b
    unfold blankEnd
    by_cases return' : b = 13
    · rw [return']
      rfl
    by_cases feed : b = 10
    · rw [feed]
      rfl
    simp [return',feed]
  rw [headerCopy,same,trim]

theorem field_distinct (one two : Field) (same : one.name = two.name) : one = two := by
  cases one <;> cases two <;> first | rfl | exact absurd same (by decide)

theorem field_lower (field : Field) : field.name.map lowerByte = field.name := by
  cases field <;> decide

theorem target_some {name : Bytes} {field : Field} : target name = some field ↔ name.map lowerByte = field.name := by
  have matches_iff : ∀ other : Field, headerNameEqual name other.name = true ↔ name.map lowerByte = other.name := by
    intro other
    rw [headerNameEqual,field_lower,beq_iff_eq]
  constructor
  · intro found
    have held := List.find?_some found
    exact (matches_iff field).mp held
  · intro same
    have listed : field ∈ Field.all := by cases field <;> decide
    cases found : target name with
    | none => exact absurd ((matches_iff field).mpr same) (List.find?_eq_none.mp found field listed)
    | some other =>
      have held := List.find?_some found
      have other_same := (matches_iff other).mp held
      rw [field_distinct other field (other_same.symm.trans same)]

theorem sinceStatus_step (callbacks : List Callback) (callback : Callback) :
    sinceStatus (callbacks ++ [callback]) =
      if isStatus callback then [] else sinceStatus callbacks ++ [callback] := by
  unfold sinceStatus
  rw [List.reverse_append,List.reverse_singleton,List.singleton_append]
  cases status : isStatus callback with
  | true => rw [List.takeWhile_cons_of_neg (by simp [status])]; rfl
  | false =>
    rw [List.takeWhile_cons_of_pos (by simp [status]),List.reverse_cons]
    rfl

-- A callback that is no status line adds its own body and its own header.
theorem since_step (callbacks : List Callback) (callback : Callback) (plain : isStatus callback = false) :
    bodySince (callbacks ++ [callback]) = bodySince callbacks ++ bodyData callback ∧
      ∀ field, headerSince field (callbacks ++ [callback]) = (headerValue field callback).or (headerSince field callbacks) := by
  have since := sinceStatus_step callbacks callback
  rw [plain] at since
  simp only [Bool.false_eq_true,if_false] at since
  refine ⟨?_,?_⟩
  · rw [bodySince,since,List.flatMap_append,List.flatMap_singleton]
    rfl
  · intro field
    rw [headerSince,since,List.filterMap_append]
    cases value : headerValue field callback with
    | none =>
      rw [List.filterMap_cons_none value,List.filterMap_nil,List.append_nil]
      rfl
    | some text =>
      rw [List.filterMap_cons_some value,List.filterMap_nil,List.getLast?_append]
      rfl

theorem since_status (callbacks : List Callback) (callback : Callback) (status : isStatus callback = true) :
    bodySince (callbacks ++ [callback]) = [] ∧ ∀ field, headerSince field (callbacks ++ [callback]) = none := by
  have since := sinceStatus_step callbacks callback
  rw [status,if_pos rfl] at since
  refine ⟨by rw [bodySince,since]; rfl,?_⟩
  intro field
  rw [headerSince,since]
  rfl

section Header
variable {maximum : Nat} {callbacks : List Callback} {response : Response} {chunk : Chunk}

theorem headerValue_target {allocated : Bool} (colon : chunk.data.contains colon = true) (field : Field) :
    headerValue field (.header chunk allocated) =
      if target (chunk.data.takeWhile (· != HttpResponse.colon)) = some field then
        some (trim (chunk.data.drop ((chunk.data.takeWhile (· != HttpResponse.colon)).length + 1)))
      else none := by
  unfold headerValue
  simp only [colon,true_and,target_some]

-- The header table a line leaves when it names nothing captured.
theorem Sound.unnamed {allocated : Bool} (sound : Sound maximum callbacks response) (plain : statusLine chunk.data = false)
    (none : ∀ field, headerValue field (.header chunk allocated) = none) :
    Sound maximum (callbacks ++ [.header chunk allocated]) response := by
  obtain ⟨body,headers⟩ := since_step callbacks (.header chunk allocated) plain
  refine ⟨sound.maximum,sound.block,sound.bounded,?_,?_⟩
  · rw [body,sound.body]
    exact (List.append_nil _).symm
  · intro field
    rw [headers,none,sound.headers]
    rfl

theorem header_sound (sound : Sound maximum callbacks response)
    (accepted : refuses response (.header chunk true) = false) :
    Sound maximum (callbacks ++ [.header chunk true]) (step response (.header chunk true)).1 := by
  simp only [refuses,bne_eq_false_iff_eq,Callback.chunk,step] at accepted
  dsimp only [step]
  unfold readResponseHeader at accepted ⊢
  by_cases huge : overflows chunk = true
  · rw [if_pos huge] at accepted
    have large := overflows_large huge
    have some : 0 < sizeLimit := by decide
    dsimp only at accepted
    omega
  rw [if_neg huge] at accepted ⊢
  dsimp only at accepted ⊢
  cases status : statusLine chunk.data with
  | true =>
    rw [if_pos rfl]
    obtain ⟨body,headers⟩ := since_status callbacks (.header chunk true) status
    refine ⟨sound.maximum,sound.block,⟨Nat.zero_le _,Nat.zero_le _⟩,body.symm ▸ List.take_zero,fun field => (headers field).symm⟩
  | false =>
    rw [status] at accepted
    simp only [Bool.false_eq_true,if_false] at accepted ⊢
    cases named : chunk.data.contains colon with
    | false =>
      refine sound.unnamed status ?_
      intro field
      simp only [headerValue,named,Bool.false_eq_true,false_and,if_false]
    | true =>
      rw [named] at accepted
      simp only [Bool.not_true,Bool.false_eq_true,if_false] at accepted ⊢
      cases found : target (chunk.data.takeWhile (· != colon)) with
      | none =>
        refine sound.unnamed status ?_
        intro field
        rw [headerValue_target named,found,if_neg (by simp)]
      | some field =>
        rw [found] at accepted
        dsimp only at accepted ⊢
        by_cases long : maxHeaderValueSize <
            (chunk.data.drop ((chunk.data.takeWhile (· != colon)).length + 1)).length
        · rw [if_pos long] at accepted
          rw [List.length_drop] at long
          dsimp only at accepted
          omega
        rw [if_neg long,if_pos trivial]
        obtain ⟨body,headers⟩ := since_step callbacks (.header chunk true) status
        refine ⟨sound.maximum,sound.block,sound.bounded,?_,?_⟩
        · rw [body,sound.body]
          exact (List.append_nil _).symm
        · intro other
          rw [headers,headerValue_target named,found,headerCopy_trim]
          dsimp only
          by_cases same : other = field
          · rw [same,Function.update_self,if_pos rfl]
            rfl
          · rw [Function.update_of_ne same,if_neg (by simpa using fun equal => same equal.symm),sound.headers]
            rfl

theorem header_buffer (response : Response) (chunk : Chunk) (allocated : Bool) :
    (readResponseHeader response chunk allocated).1.buffer = response.buffer ∨
      (readResponseHeader response chunk allocated).1.buffer = { response.buffer with size := 0, exceeded := false } := by
  unfold readResponseHeader
  split
  · exact .inl rfl
  dsimp only
  split
  · exact .inr rfl
  split
  · exact .inl rfl
  split
  · exact .inl rfl
  split
  · exact .inl rfl
  split
  · exact .inl rfl
  · exact .inl rfl

end Header

section Run
variable {maximum : Nat} {callbacks : List Callback} {response : Response}

theorem Sound.size (sound : Sound maximum callbacks response) : response.buffer.size = (bodySince callbacks).length := by
  rw [← sound.body,List.length_take,sound.block]
  exact (Nat.min_eq_left sound.bounded.capacity).symm

theorem opened_sound (maximum : Nat) : Sound maximum [] (opened maximum) :=
  ⟨rfl,rfl,⟨Nat.zero_le _,Nat.zero_le _⟩,rfl,fun _ => rfl⟩

-- What one callback does to a sound response, whether it refuses or not.
structure Stepped (maximum : Nat) (callbacks : List Callback) (response : Response) (callback : Callback) : Prop where
  limit : (step response callback).1.buffer.maximum = maximum
  bounded : Bounded (step response callback).1.buffer
  capacity : response.buffer.capacity ≤ (step response callback).1.buffer.capacity
  sound : refuses response callback = false → Sound maximum (callbacks ++ [callback]) (step response callback).1
  refused : ∀ chunk memory, callback = .body chunk memory →
    (refuses response callback = true ↔ maximum < (bodySince callbacks).length + chunk.data.length)

theorem body_stepped (sound : Sound maximum callbacks response) (limit : maximum ≤ maximumLimit) (chunk : Chunk)
    (fresh : Nat → UInt8) : Stepped maximum callbacks response (.body chunk (some fresh)) := by
  have size := sound.size
  have top := sound.maximum
  have fits := sound.bounded.maximum
  by_cases beyond : response.buffer.maximum < response.buffer.size + chunk.data.length
  · have result := writeResponse_refuses sound.bounded (top ▸ limit) beyond (some fresh)
    have refused : refuses response (.body chunk (some fresh)) = true := by
      simp only [refuses,step,result,Callback.chunk,bne_iff_ne,ne_eq]
      omega
    refine ⟨?_,?_,?_,?_,?_⟩
    · simp only [step,result]
      exact top
    · simp only [step,result]
      exact ⟨sound.bounded.maximum,sound.bounded.capacity⟩
    · simp only [step,result]
      exact le_refl _
    · intro accepted
      rw [refused] at accepted
      cases accepted
    · intro other memory same
      obtain ⟨rfl,rfl⟩ := Callback.body.inj same
      exact iff_of_true refused (by omega)
  · obtain ⟨after,result,after_size,after_maximum,block,room,larger,taken⟩ :=
      writeResponse_accepts chunk sound.block sound.bounded (top ▸ limit) (by omega) fresh
    have accepted : refuses response (.body chunk (some fresh)) = false := by
      simp only [refuses,step,result,Callback.chunk,bne_self_eq_false]
    refine ⟨?_,?_,?_,?_,?_⟩
    · simp only [step,result]
      exact after_maximum.trans top
    · simp only [step,result]
      exact ⟨by omega,room⟩
    · simp only [step,result]
      exact larger
    · intro _
      simp only [step,result]
      obtain ⟨body,headers⟩ := since_step callbacks (.body chunk (some fresh)) rfl
      refine ⟨after_maximum.trans top,block,⟨by dsimp only; omega,room⟩,?_,?_⟩
      · rw [body,taken,sound.body]
        rfl
      · intro field
        rw [headers,sound.headers]
        rfl
    · intro other memory same
      obtain ⟨rfl,rfl⟩ := Callback.body.inj same
      rw [accepted]
      exact iff_of_false (by decide) (by omega)

theorem header_stepped (sound : Sound maximum callbacks response) (chunk : Chunk) :
    Stepped maximum callbacks response (.header chunk true) := by
  refine ⟨?_,?_,?_,header_sound sound,fun _ _ other => (by cases other)⟩
  · dsimp only [step]
    rcases header_buffer response chunk true with same | reset
    · rw [same]
      exact sound.maximum
    · rw [reset]
      exact sound.maximum
  · dsimp only [step]
    rcases header_buffer response chunk true with same | reset
    · rw [same]
      exact sound.bounded
    · rw [reset]
      exact ⟨Nat.zero_le _,Nat.zero_le _⟩
  · dsimp only [step]
    rcases header_buffer response chunk true with same | reset
    · rw [same]
    · rw [reset]

theorem sound_stepped (sound : Sound maximum callbacks response) (limit : maximum ≤ maximumLimit) {callback : Callback}
    (allocates : callback.allocates = true) : Stepped maximum callbacks response callback := by
  cases callback with
  | header chunk allocated =>
    cases (allocates : allocated = true)
    exact header_stepped sound chunk
  | body chunk memory =>
    obtain ⟨fresh,rfl⟩ := Option.isSome_iff_exists.mp (allocates : memory.isSome = true)
    exact body_stepped sound limit chunk fresh

theorem perform_sound {earlier : List Callback} (sound : Sound maximum earlier response) (limit : maximum ≤ maximumLimit)
    (allocates : ∀ callback ∈ callbacks, callback.allocates = true) (finished : (perform response callbacks).2 = true) :
    Sound maximum (earlier ++ callbacks) (perform response callbacks).1 := by
  induction callbacks generalizing response earlier with
  | nil => rwa [List.append_nil]
  | cons callback rest ih =>
    have stepped := sound_stepped sound limit (allocates callback List.mem_cons_self)
    unfold perform at finished ⊢
    cases refused : refuses response callback with
    | true =>
      rw [refused,if_pos rfl] at finished
      cases finished
    | false =>
      rw [refused] at finished
      rw [if_neg (by decide)] at finished ⊢
      have later := ih (stepped.sound refused) (fun other member => allocates other (List.mem_cons_of_mem _ member)) finished
      rwa [List.append_assoc] at later

-- Whatever libcurl delivers, as long as no callback has refused.
theorem response_exact (limit : maximum ≤ maximumLimit) (allocates : ∀ callback ∈ callbacks, callback.allocates = true)
    (accepted : (perform (opened maximum) callbacks).2 = true) :
    ((perform (opened maximum) callbacks).1.buffer.size ≤ maximum ∧
      (perform (opened maximum) callbacks).1.buffer.size ≤ (perform (opened maximum) callbacks).1.buffer.capacity) ∧
    body (perform (opened maximum) callbacks).1 = bodySince callbacks ∧
    (∀ field, (perform (opened maximum) callbacks).1.headers field = headerSince field callbacks ∧
      returnedHeader (perform (opened maximum) callbacks).1 field = (headerSince field callbacks).map cString) ∧
    (∀ callback : Callback, callback.allocates = true →
      let response := (perform (opened maximum) callbacks).1
      (step response callback).1.buffer.size ≤ maximum ∧
      (step response callback).1.buffer.size ≤ (step response callback).1.buffer.capacity ∧
      response.buffer.capacity ≤ (step response callback).1.buffer.capacity ∧
      ∀ chunk memory, callback = .body chunk memory →
        (refuses response callback = true ↔ maximum < (bodySince callbacks).length + chunk.data.length)) ∧
    ∀ (buffer : Buffer) (required : Nat) (fresh : Nat → UInt8), required ≤ buffer.maximum →
      (reserveBuffer buffer required (some fresh)).2 = true := by
  have sound := perform_sound (opened_sound maximum) limit allocates accepted
  rw [List.nil_append] at sound
  refine ⟨⟨sound.bounded.maximum.trans_eq sound.maximum,sound.bounded.capacity⟩,sound.body,?_,?_,
    fun buffer required fresh fits => reserveBuffer_accepts buffer fits fresh⟩
  · intro field
    refine ⟨sound.headers field,?_⟩
    rw [returnedHeader,sound.headers]
  · intro callback allocated
    have stepped := sound_stepped sound limit allocated
    exact ⟨stepped.bounded.maximum.trans_eq stepped.limit,stepped.bounded.capacity,stepped.capacity,stepped.refused⟩

end Run

def piece (s : String) : Chunk := ⟨1,(text s).length,text s,(Nat.one_mul _).symm⟩
def line (s : String) : Callback := .header (piece s) true
def part (s : String) : Callback := .body (piece s) (some fun _ => 0)

-- A redirect with a body of its own, then the answer.
def redirected : List Callback :=
  [line "HTTP/1.1 302 Found\r\n",line "ETag: old\r\n",line "Retry-After: 9\r\n",part "gone",
   line "http/2 200\r\n",line "eTag:  new \r\n",part "ne",part "wer"]

theorem response_exact_redirected :
    body (perform (opened 5) redirected).1 = text "newer" ∧
    (perform (opened 5) redirected).1.headers .etag = some (text "new") ∧
    (perform (opened 5) redirected).1.headers .retryAfter = none ∧
    refuses (perform (opened 5) redirected).1 (part "!") = true := by
  have allocates : ∀ callback ∈ redirected, callback.allocates = true := by decide
  have accepted : (perform (opened 5) redirected).2 = true := by decide +kernel
  obtain ⟨_,whole,headers,next,_⟩ := response_exact (by decide : 5 ≤ maximumLimit) allocates accepted
  have one : bodySince redirected = text "newer" := by decide
  refine ⟨whole.trans one,(headers .etag).1.trans (by decide),(headers .retryAfter).1.trans (by decide),?_⟩
  have beyond : 5 < (bodySince redirected).length + (piece "!").data.length := by decide
  exact ((next (part "!") rfl).2.2.2 (piece "!") _ rfl).mpr beyond

end Hypringo.HttpResponse
