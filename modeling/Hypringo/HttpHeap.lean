import Hypringo.Blocks
import Hypringo.HttpResponse

namespace Hypringo.HttpHeap
open Hypringo.Lua Hypringo.Blocks
open Hypringo.HttpResponse (Chunk Field Response sizeLimit maxHeaderValueSize colon grow initialCapacity initialCapacity_pos
  overflows headerCopy statusLine target piece)

-- What http.c holds: the block of the body, header copies, the list of request
-- headers and the handle.
inductive Cell where
  | block (data : Bytes)
  | string (value : Bytes)
  | list (headers : List Bytes)
  | curl
  deriving DecidableEq, Repr

structure Buffer where
  data : Pointer
  size : Nat
  capacity : Nat
  maximum : Nat
  exceeded : Bool

structure Transfer where
  buffer : Buffer
  headers : Field → Pointer
  headersExceeded : Bool

def opened (maximum : Nat) : Transfer := ⟨⟨none,0,0,maximum,false⟩,fun _ => none,false⟩

-- What a block holds where it grew is anything.
def enlarged (capacity : Nat) (fresh : Nat → UInt8) : Option Cell → Cell
  | some (.block data) => .block (data.take capacity ++ (List.range' data.length (capacity - data.length)).map fresh)
  | _ => .block ((List.range' 0 capacity).map fresh)

structure Reserved where
  buffer : Buffer
  ok : Bool

def reserveBuffer (buffer : Buffer) (required : Nat) (fresh : Nat → UInt8) : Program Cell Reserved :=
  if required ≤ buffer.capacity then pure ⟨buffer,true⟩
  else
    let capacity := grow buffer.maximum required (initialCapacity buffer.capacity) (initialCapacity_pos _)
    if capacity < required then pure ⟨buffer,false⟩
    else do
      let data ← realloc buffer.data (enlarged capacity fresh)
      pure (if data.isSome then ⟨{ buffer with data := data, capacity := capacity },true⟩ else ⟨buffer,false⟩)

-- memcpy into a block, which has to have the room.
def copyInto (pointer : Pointer) (offset : Nat) (source : Bytes) : Program Cell Unit :=
  if source.isEmpty then pure ()
  else do
    match ← load pointer with
    | .block data =>
      if offset + source.length ≤ data.length then store pointer (.block (Control.memcpy data offset source)) else failure
    | _ => failure

structure Written where
  buffer : Buffer
  returned : Nat

def writeResponse (buffer : Buffer) (chunk : Chunk) (fresh : Nat → UInt8) : Program Cell Written :=
  if overflows chunk then pure ⟨{ buffer with exceeded := true },0⟩
  else if (buffer.maximum + sizeLimit - buffer.size) % sizeLimit < chunk.size * chunk.count then
    pure ⟨{ buffer with exceeded := true },0⟩
  else do
    let reserved ← reserveBuffer buffer ((buffer.size + chunk.size * chunk.count) % sizeLimit) fresh
    if reserved.ok then do
      copyInto reserved.buffer.data reserved.buffer.size chunk.data
      pure ⟨{ reserved.buffer with size := reserved.buffer.size + chunk.size * chunk.count },chunk.size * chunk.count⟩
    else pure ⟨reserved.buffer,0⟩

def replaceHeader (headers : Field → Pointer) (field : Field) (value : Bytes) : Program Cell (Field → Pointer) := do
  let copy ← malloc (.string (headerCopy value))
  if copy.isSome then do
    free (headers field)
    pure (Function.update headers field copy)
  else pure headers

def clearResponseHeaders (headers : Field → Pointer) : Program Cell Unit := do
  free (headers .etag)
  free (headers .lastModified)
  free (headers .retryAfter)
  free (headers .xPollInterval)
  free (headers .xRatelimitRemaining)
  free (headers .xRatelimitReset)

structure Handled where
  transfer : Transfer
  returned : Nat

def readResponseHeader (transfer : Transfer) (chunk : Chunk) : Program Cell Handled :=
  if overflows chunk then pure ⟨transfer,0⟩
  else if statusLine chunk.data then do
    clearResponseHeaders transfer.headers
    pure ⟨⟨{ transfer.buffer with size := 0, exceeded := false },fun _ => none,false⟩,chunk.size * chunk.count⟩
  else if !chunk.data.contains colon then pure ⟨transfer,chunk.size * chunk.count⟩
  else match target (chunk.data.takeWhile (· != colon)) with
    | none => pure ⟨transfer,chunk.size * chunk.count⟩
    | some field =>
      let value := chunk.data.drop ((chunk.data.takeWhile (· != colon)).length + 1)
      if maxHeaderValueSize < value.length then pure ⟨{ transfer with headersExceeded := true },0⟩
      else do
        let headers ← replaceHeader transfer.headers field value
        pure ⟨{ transfer with headers := headers },chunk.size * chunk.count⟩

inductive Callback where
  | header (chunk : Chunk)
  | body (chunk : Chunk) (fresh : Nat → UInt8)

def Callback.chunk : Callback → Chunk
  | .header chunk => chunk
  | .body chunk _ => chunk

def step (transfer : Transfer) : Callback → Program Cell Handled
  | .header chunk => readResponseHeader transfer chunk
  | .body chunk fresh => do
    let written ← writeResponse transfer.buffer chunk fresh
    pure ⟨{ transfer with buffer := written.buffer },written.returned⟩

structure Performed where
  transfer : Transfer
  completed : Bool

-- libcurl stops at the first callback that refuses its data.
def perform (transfer : Transfer) : List Callback → Program Cell Performed
  | [] => pure ⟨transfer,true⟩
  | callback :: rest => do
    let handled ← step transfer callback
    if handled.returned != callback.chunk.data.length then pure ⟨handled.transfer,false⟩
    else perform handled.transfer rest

-- The arguments, each of the type that is checked for. An item of the headers
-- that is no string is none.
structure Request where
  timeoutMs : Int
  maxBytes : Int
  headers : Option (List (Option Bytes))

def maxHeaderCount : Nat := 64

def validRequestHeader (header : Bytes) : Bool :=
  !(header.isEmpty || header.contains 13 || header.contains 10) && header.contains colon

-- curl_slist_append copies up to a terminator. The list is one block.
def appended (header : Bytes) : Option Cell → Cell
  | some (.list headers) => .list (headers ++ [Control.cString header])
  | _ => .list [Control.cString header]

def tooManyHeaders : Bytes := text "HTTP request has too many headers"
def headersNoStrings : Bytes := text "HTTP request headers must be strings"
def headerNoLine : Bytes := text "HTTP request header must be a single name:value line"
def headersNoMemory : Bytes := text "cannot allocate HTTP request headers"
def requestNoMemory : Bytes := text "cannot create HTTP request"

def appendHeaders (headers : Pointer) : List (Option Bytes) → Program Cell (Except Bytes Pointer)
  | [] => pure (.ok headers)
  | none :: _ => do
    free headers
    pure (.error headersNoStrings)
  | some header :: rest =>
    if !validRequestHeader header then do
      free headers
      pure (.error headerNoLine)
    else do
      let next ← realloc headers (appended header)
      if next.isSome then appendHeaders next rest
      else do
        free headers
        pure (.error headersNoMemory)

def readRequestHeaders (headers : Option (List (Option Bytes))) : Program Cell (Except Bytes Pointer) :=
  match headers with
  | none => pure (.ok none)
  | some items => if maxHeaderCount < items.length then pure (.error tooManyHeaders) else appendHeaders none items

-- What libcurl answers: the text of a failed initialisation, of the first option
-- it refuses, and for the transfer what it calls back, how it fails when a
-- callback refuses or otherwise (the error buffer, and the text of the code),
-- and what it tells of a response.
structure Failure where
  error : Bytes
  code : Bytes

structure Answers where
  initialized : Option Bytes
  option : Option Bytes
  callbacks : List Callback
  refusal : Failure
  failure : Option Failure
  status : Int
  url : Option Bytes

inductive Returned where
  | raised (message : Bytes)
  | failed (message : Bytes)
  | response (status : Int) (body : Bytes) (url : Option Bytes) (headers : Field → Option Bytes)

-- libcurl reads the headers of a request while it transfers.
def reach (pointer : Pointer) : Program Cell Unit := if pointer.isSome then touch pointer else pure ()

-- The frees of push_request_error and of the end of lrequest.
def release (transfer : Transfer) (headers curl : Pointer) : Program Cell Unit := do
  free transfer.buffer.data
  clearResponseHeaders transfer.headers
  free headers
  free curl

def Answers.failing (answers : Answers) (completed : Bool) : Option Failure :=
  if completed then answers.failure else some answers.refusal

def errorMessage (exceeded headersExceeded : Bool) (failure : Failure) : Bytes :=
  if exceeded then text "HTTP response exceeds configured max_bytes"
  else if headersExceeded then text "HTTP response header exceeds 8192 bytes"
  else if failure.error = [] then failure.code
  else failure.error

def readBody (buffer : Buffer) : Program Cell Bytes :=
  if buffer.data.isSome then do
    match ← load buffer.data with
    | .block data => if buffer.size ≤ data.length then pure (data.take buffer.size) else failure
    | _ => failure
  else pure []

def readString (pointer : Pointer) : Program Cell (Option Bytes) :=
  if pointer.isSome then do
    match ← load pointer with
    | .string value => pure (some (Control.cString value))
    | _ => failure
  else pure none

def readFields (headers : Field → Pointer) : List Field → Program Cell (Field → Option Bytes)
  | [] => pure fun _ => none
  | field :: rest => do
    let value ← readString (headers field)
    let values ← readFields headers rest
    pure (Function.update values field value)

def respond (answers : Answers) (transfer : Transfer) : Program Cell Returned := do
  let body ← readBody transfer.buffer
  let headers ← readFields transfer.headers Field.all
  pure (.response answers.status body answers.url headers)

def transferred (answers : Answers) (headers curl : Pointer) (performed : Performed) : Program Cell Returned :=
  match answers.failing performed.completed with
  | some failure => do
    release performed.transfer headers curl
    pure (.failed (errorMessage performed.transfer.buffer.exceeded performed.transfer.headersExceeded failure))
  | none => do
    let response ← respond answers performed.transfer
    release performed.transfer headers curl
    pure response

def transfer (answers : Answers) (maximum : Nat) (headers curl : Pointer) : Program Cell Returned :=
  match answers.option with
  | some message => do
    release (opened maximum) headers curl
    pure (.failed message)
  | none => do
    touch curl
    reach headers
    let performed ← perform (opened maximum) answers.callbacks
    transferred answers headers curl performed

def create (answers : Answers) (maximum : Nat) (headers : Pointer) : Program Cell Returned := do
  let curl ← malloc .curl
  if curl.isSome then transfer answers maximum headers curl
  else do
    free headers
    pure (.raised requestNoMemory)

def lrequest (request : Request) (answers : Answers) : Program Cell Returned :=
  if request.timeoutMs < 10 ∨ 600000 < request.timeoutMs then
    pure (.raised (text "HTTP timeout_ms must be between 10 and 600000"))
  else if request.maxBytes < 1 ∨ 16 * 1024 * 1024 < request.maxBytes then
    pure (.raised (text "HTTP max_bytes must be between 1 and 16777216"))
  else match answers.initialized with
    | some error => pure (.raised (text "cannot initialize libcurl: " ++ error))
    | none => do
      match ← readRequestHeaders request.headers with
      | .error message => pure (.raised message)
      | .ok headers => create answers request.maxBytes.toNat headers

-- What a request answers for values.
def headersFault : List (Option Bytes) → Option Bytes
  | [] => none
  | none :: _ => some headersNoStrings
  | some header :: rest => if !validRequestHeader header then some headerNoLine else headersFault rest

def requestFault (headers : Option (List (Option Bytes))) : Option Bytes :=
  match headers with
  | none => none
  | some items => if maxHeaderCount < items.length then some tooManyHeaders else headersFault items

def finished (answers : Answers) (performed : Response × Bool) : Returned :=
  match answers.failing performed.2 with
  | some failure => .failed (errorMessage performed.1.buffer.exceeded performed.1.headersExceeded failure)
  | none => .response answers.status (HttpResponse.body performed.1) answers.url (HttpResponse.returnedHeader performed.1)

def delivered (answers : Answers) (maximum : Nat) (told : List HttpResponse.Callback) : Returned :=
  match answers.option with
  | some message => .failed message
  | none => finished answers (HttpResponse.perform (HttpResponse.opened maximum) told)

def meant (request : Request) (answers : Answers) (told : List HttpResponse.Callback) : Returned :=
  if request.timeoutMs < 10 ∨ 600000 < request.timeoutMs then .raised (text "HTTP timeout_ms must be between 10 and 600000")
  else if request.maxBytes < 1 ∨ 16 * 1024 * 1024 < request.maxBytes then
    .raised (text "HTTP max_bytes must be between 1 and 16777216")
  else match answers.initialized with
    | some error => .raised (text "cannot initialize libcurl: " ++ error)
    | none =>
      match requestFault request.headers with
      | some message => .raised message
      | none => delivered answers request.maxBytes.toNat told

-- The slots behind the pointers: a block of body bytes or a header copy.
def typed (make : Bytes → Cell) (slot : Slot Bytes) : Slot Cell := slot.map fun block => (block.1,make block.2)
def contents (slot : Slot Bytes) : Bytes := (Slot.value slot).getD []
def dataBlocks (slot : Slot Bytes) : Multiset (Nat × Cell) := Slot.blocks (typed .block slot)
def textBlocks (slot : Slot Bytes) : Multiset (Nat × Cell) := Slot.blocks (typed .string slot)

-- The buffer of the source for one of values.
def bufferOf (data : Slot Bytes) (b : HttpResponse.Buffer) : Buffer :=
  ⟨Slot.pointer data,b.size,b.capacity,b.maximum,b.exceeded⟩

structure Fit (b : HttpResponse.Buffer) : Prop where
  block : b.data.length = b.capacity
  bounded : HttpResponse.Bounded b
  limit : b.maximum ≤ HttpResponse.maximumLimit

-- What a callback of values is told of memory.
def memory (granted : Bool) (fresh : Nat → UInt8) : HttpResponse.Memory := if granted then some fresh else none

def tell (callback : Callback) (granted : Bool) : HttpResponse.Callback :=
  match callback with
  | .header chunk => .header chunk granted
  | .body chunk fresh => .body chunk (memory granted fresh)

variable {grants : Nat → Bool} {data : Slot Bytes} {b : HttpResponse.Buffer}

@[simp] theorem typed_pointer (make : Bytes → Cell) (slot : Slot Bytes) : (typed make slot).pointer = Slot.pointer slot := by
  cases slot <;> rfl

theorem enlarged_contents (capacity : Nat) (fresh : Nat → UInt8) (data : Slot Bytes) :
    enlarged capacity fresh (Slot.value (typed .block data)) = .block ((contents data).take capacity ++
      (List.range' (contents data).length (capacity - (contents data).length)).map fresh) := by
  cases data <;> simp [typed,Slot.value,contents,enlarged]

theorem reserveBuffer_spec (same : b.data = contents data) (required : Nat) (fresh : Nat → UInt8) :
    Spec grants (dataBlocks data) (reserveBuffer (bufferOf data b) required fresh) fun reserved leaves =>
      ∃ (after : Slot Bytes) (granted : Bool),
        reserved = ⟨bufferOf after (HttpResponse.reserveBuffer b required (memory granted fresh)).1,
          (HttpResponse.reserveBuffer b required (memory granted fresh)).2⟩ ∧
        leaves = dataBlocks after ∧ (HttpResponse.reserveBuffer b required (memory granted fresh)).1.data = contents after ∧
        (Plenty grants → granted = true) := by
  by_cases enough : required ≤ b.capacity
  · have held : HttpResponse.reserveBuffer b required (memory true fresh) = (b,true) := by
      rw [HttpResponse.reserveBuffer,if_pos enough]
    rw [reserveBuffer,if_pos (show required ≤ (bufferOf data b).capacity from enough)]
    exact .pure ⟨data,true,by rw [held],rfl,by rw [held,same],fun _ => rfl⟩
  · rw [reserveBuffer,if_neg (show ¬required ≤ (bufferOf data b).capacity from enough)]
    by_cases short : grow b.maximum required (initialCapacity b.capacity) (initialCapacity_pos _) < required
    · have held : HttpResponse.reserveBuffer b required (memory true fresh) = (b,false) := by
        rw [HttpResponse.reserveBuffer,if_neg enough]
        exact if_pos short
      dsimp only [bufferOf]
      rw [if_pos short]
      exact .pure ⟨data,true,by rw [held],rfl,by rw [held,same],fun _ => rfl⟩
    · dsimp only [bufferOf]
      rw [if_neg short,← typed_pointer .block]
      refine .step (add_zero _).symm (realloc_spec (typed .block data) _) fun pointer leaves grown => ?_
      obtain ⟨given,rfl,rfl,answers⟩ := grown
      cases given with
      | none =>
        have held : HttpResponse.reserveBuffer b required (memory false fresh) = (b,false) := by
          rw [HttpResponse.reserveBuffer,if_neg enough]
          exact if_neg short
        refine .pure ⟨data,false,by rw [held,typed_pointer]; rfl,?_,by rw [held,same],answers.granted⟩
        rw [add_zero,Option.none_or]
        rfl
      | some block =>
        obtain ⟨n,cell⟩ := block
        have written := answers.value _ rfl
        rw [enlarged_contents,← same] at written
        obtain rfl : cell = _ := written
        have held : HttpResponse.reserveBuffer b required (memory true fresh) =
            ({ b with
                data := b.data.take (grow b.maximum required (initialCapacity b.capacity) (initialCapacity_pos _)) ++
                  (List.range' b.data.length (grow b.maximum required (initialCapacity b.capacity) (initialCapacity_pos _) -
                    b.data.length)).map fresh
                capacity := grow b.maximum required (initialCapacity b.capacity) (initialCapacity_pos _) },true) := by
          rw [HttpResponse.reserveBuffer,if_neg enough]
          exact if_neg short
        exact .pure ⟨some (n,_),true,by rw [held]; rfl,add_zero _,by rw [held]; rfl,fun _ => rfl⟩

theorem copyInto_spec (after : Slot Bytes) (offset : Nat) (source : Bytes)
    (room : offset + source.length ≤ (contents after).length) :
    Spec grants (dataBlocks after) (copyInto (Slot.pointer after) offset source) fun _ leaves => ∃ final : Slot Bytes,
      Slot.pointer final = Slot.pointer after ∧ leaves = dataBlocks final ∧
        contents final = Control.memcpy (contents after) offset source := by
  cases source with
  | nil => exact .pure ⟨after,rfl,rfl,by simp [Control.memcpy]⟩
  | cons first rest =>
    cases after with
    | none => simp [contents,Slot.value] at room
    | some block =>
      obtain ⟨n,bytes⟩ := block
      refine .step (add_zero _).symm (load_spec n (Cell.block bytes)) fun cell leaves loaded => ?_
      obtain ⟨rfl,rfl⟩ := loaded
      have fits : offset + (first :: rest).length ≤ bytes.length := room
      rw [add_zero]
      refine (show Spec grants _ (if _ then _ else _) _ from ?_)
      rw [if_pos fits]
      refine (store_spec n (Cell.block bytes) _).weaken fun _ leaves stored => ?_
      exact ⟨some (n,Control.memcpy bytes offset (first :: rest)),rfl,stored,rfl⟩

theorem Fit.reset (fit : Fit b) : Fit { b with size := 0, exceeded := false } :=
  ⟨fit.block,⟨Nat.zero_le _,Nat.zero_le _⟩,fit.limit⟩

theorem Fit.exceeding (fit : Fit b) : Fit { b with exceeded := true } :=
  ⟨fit.block,⟨fit.bounded.maximum,fit.bounded.capacity⟩,fit.limit⟩

-- The room that is left, and no wrapping of what it is measured with.
theorem writeResponse_reserves (fit : Fit b) {chunk : Chunk} (small : overflows chunk ≠ true)
    (within : ¬(b.maximum + sizeLimit - b.size) % sizeLimit < chunk.size * chunk.count) (memory : HttpResponse.Memory) :
    (b.size + chunk.size * chunk.count) % sizeLimit = b.size + chunk.data.length ∧
      b.size + chunk.data.length ≤ b.maximum ∧
      HttpResponse.writeResponse b chunk memory =
        (if (HttpResponse.reserveBuffer b (b.size + chunk.data.length) memory).2 then
          ({ (HttpResponse.reserveBuffer b (b.size + chunk.data.length) memory).1 with
              data := Control.memcpy (HttpResponse.reserveBuffer b (b.size + chunk.data.length) memory).1.data
                (HttpResponse.reserveBuffer b (b.size + chunk.data.length) memory).1.size chunk.data
              size := (HttpResponse.reserveBuffer b (b.size + chunk.data.length) memory).1.size + chunk.size * chunk.count },
            chunk.size * chunk.count)
        else ((HttpResponse.reserveBuffer b (b.size + chunk.data.length) memory).1,0)) := by
  have fits := fit.bounded.maximum
  have limit := fit.limit
  have wide : HttpResponse.maximumLimit < sizeLimit := by decide
  have left := within
  rw [HttpResponse.room_left fit.bounded fit.limit,← chunk.measured] at left
  have required : (b.size + chunk.size * chunk.count) % sizeLimit = b.size + chunk.data.length := by
    rw [← chunk.measured]
    exact Nat.mod_eq_of_lt (by omega)
  refine ⟨required,by omega,?_⟩
  rw [HttpResponse.writeResponse,if_neg small]
  dsimp only
  rw [if_neg within,required]
  obtain ⟨reserved,ok⟩ := HttpResponse.reserveBuffer b (b.size + chunk.data.length) memory
  cases ok <;> rfl

theorem writeResponse_fit (fit : Fit b) (chunk : Chunk) (memory : HttpResponse.Memory) :
    Fit (HttpResponse.writeResponse b chunk memory).1 := by
  by_cases huge : overflows chunk = true
  · rw [HttpResponse.writeResponse,if_pos huge]
    exact fit.exceeding
  by_cases more : (b.maximum + sizeLimit - b.size) % sizeLimit < chunk.size * chunk.count
  · have value : HttpResponse.writeResponse b chunk memory = ({ b with exceeded := true },0) :=
      (if_neg huge).trans (if_pos more)
    rw [value]
    exact fit.exceeding
  obtain ⟨_,within,value⟩ := writeResponse_reserves fit huge more memory
  have grown := HttpResponse.reserveBuffer_grown fit.block (b.size + chunk.data.length) memory
  rw [value]
  by_cases ok : (HttpResponse.reserveBuffer b (b.size + chunk.data.length) memory).2 = true
  · have reached := HttpResponse.reserveBuffer_room ok
    have space : (HttpResponse.reserveBuffer b (b.size + chunk.data.length) memory).1.size + chunk.data.length ≤
        (HttpResponse.reserveBuffer b (b.size + chunk.data.length) memory).1.data.length := by
      rw [grown.size,grown.block]
      exact reached
    rw [if_pos ok]
    refine ⟨(Control.memcpy_take _ chunk.data space).2.trans grown.block,⟨?_,?_⟩,grown.maximum ▸ fit.limit⟩
    · dsimp only
      rw [grown.size,grown.maximum,← chunk.measured]
      exact within
    · dsimp only
      rw [grown.size,← chunk.measured]
      exact reached
  · rw [if_neg ok]
    refine ⟨grown.block,⟨?_,?_⟩,grown.maximum ▸ fit.limit⟩
    · rw [grown.size,grown.maximum]
      exact fit.bounded.maximum
    · rw [grown.size]
      exact fit.bounded.capacity.trans grown.capacity

theorem writeResponse_spec (fit : Fit b) (same : b.data = contents data) (chunk : Chunk) (fresh : Nat → UInt8) :
    Spec grants (dataBlocks data) (writeResponse (bufferOf data b) chunk fresh) fun written leaves =>
      ∃ (after : Slot Bytes) (granted : Bool) (next : HttpResponse.Buffer) (returned : Nat),
        HttpResponse.writeResponse b chunk (memory granted fresh) = (next,returned) ∧
        written = ⟨bufferOf after next,returned⟩ ∧ leaves = dataBlocks after ∧ next.data = contents after ∧
        (Plenty grants → granted = true) := by
  by_cases huge : overflows chunk = true
  · rw [writeResponse,if_pos huge]
    refine .pure ⟨data,true,{ b with exceeded := true },0,?_,rfl,rfl,same,fun _ => rfl⟩
    rw [HttpResponse.writeResponse,if_pos huge]
  rw [writeResponse,if_neg huge]
  by_cases more : (b.maximum + sizeLimit - b.size) % sizeLimit < chunk.size * chunk.count
  · rw [if_pos (show ((bufferOf data b).maximum + sizeLimit - (bufferOf data b).size) % sizeLimit < _ from more)]
    refine .pure ⟨data,true,{ b with exceeded := true },0,?_,rfl,rfl,same,fun _ => rfl⟩
    rw [HttpResponse.writeResponse,if_neg huge]
    exact if_pos more
  rw [if_neg (show ¬((bufferOf data b).maximum + sizeLimit - (bufferOf data b).size) % sizeLimit < _ from more)]
  refine .step (add_zero _).symm (reserveBuffer_spec same _ fresh) fun reserved leaves got => ?_
  obtain ⟨after,granted,rfl,rfl,filled,answered⟩ := got
  obtain ⟨required,_,value⟩ := writeResponse_reserves fit huge more (memory granted fresh)
  have size : (bufferOf data b).size = b.size := rfl
  rw [size,required] at filled ⊢
  rw [add_zero]
  by_cases ok : (HttpResponse.reserveBuffer b (b.size + chunk.data.length) (memory granted fresh)).2 = true
  · have grown := HttpResponse.reserveBuffer_grown fit.block (b.size + chunk.data.length) (memory granted fresh)
    have space : (HttpResponse.reserveBuffer b (b.size + chunk.data.length) (memory granted fresh)).1.size +
        chunk.data.length ≤ (contents after).length := by
      rw [← filled,grown.size,grown.block]
      exact HttpResponse.reserveBuffer_room ok
    rw [if_pos ok] at value
    rw [if_pos ok]
    refine .step (add_zero _).symm (copyInto_spec after _ chunk.data space) fun _ leaves copied => ?_
    obtain ⟨final,pointer,rfl,copy⟩ := copied
    refine .pure ⟨final,granted,_,_,value,?_,add_zero _,?_,answered⟩
    · simp [bufferOf,pointer]
    · rw [copy,filled]
      rfl
  · rw [if_neg ok] at value
    rw [if_neg ok]
    exact .pure ⟨after,granted,_,_,value,rfl,rfl,filled,answered⟩

theorem frees (make : Bytes → Cell) {slot : Slot Bytes} {owned others : Multiset (Nat × Cell)} {α : Type}
    {rest : Program Cell α} {post : α → Multiset (Nat × Cell) → Prop} (part : owned = Slot.blocks (typed make slot) + others)
    (follows : Spec grants others rest post) : Spec grants owned (free (Slot.pointer slot) >>= fun _ => rest) post := by
  rw [← typed_pointer make]
  exact .frees part follows

theorem reaches {slot : Slot Cell} {owned others : Multiset (Nat × Cell)} {α : Type} {rest : Program Cell α}
    {post : α → Multiset (Nat × Cell) → Prop} (part : owned = slot.blocks + others)
    (follows : Spec grants owned rest post) : Spec grants owned (reach slot.pointer >>= fun _ => rest) post := by
  cases slot with
  | none => exact follows
  | some block => exact .touches part follows

-- The copies of the header values.
abbrev Copies := Field → Slot Bytes

def Copies.blocks (copies : Copies) : Multiset (Nat × Cell) :=
  textBlocks (copies .etag) + (textBlocks (copies .lastModified) + (textBlocks (copies .retryAfter) +
    (textBlocks (copies .xPollInterval) + (textBlocks (copies .xRatelimitRemaining) + textBlocks (copies .xRatelimitReset)))))

def Copies.pointers (copies : Copies) : Field → Pointer := fun field => Slot.pointer (copies field)
def Copies.values (copies : Copies) : Field → Option Bytes := fun field => Slot.value (copies field)

variable {copies : Copies} {field : Field}

theorem textBlocks_none : textBlocks none = 0 := rfl

theorem Copies.split (copies : Copies) (field : Field) :
    Copies.blocks copies = textBlocks (copies field) + Copies.blocks (Function.update copies field none) := by
  cases field <;> simp [Copies.blocks,textBlocks_none] <;> abel

theorem Copies.joined (copies : Copies) (field : Field) (slot : Slot Bytes) :
    Copies.blocks (Function.update copies field slot) =
      textBlocks slot + Copies.blocks (Function.update copies field none) := by
  rw [Copies.split (Function.update copies field slot) field,Function.update_self,Function.update_idem]

theorem update_through {γ : Type} (read : Slot Bytes → γ) (copies : Copies) (field : Field) (slot : Slot Bytes) :
    (fun other => read (Function.update copies field slot other)) =
      Function.update (fun other => read (copies other)) field (read slot) := by
  funext other
  by_cases same : other = field
  · subst same
    simp
  · simp [same]

theorem clearResponseHeaders_spec (copies : Copies) :
    Spec grants (Copies.blocks copies) (clearResponseHeaders (Copies.pointers copies)) fun _ leaves => leaves = 0 := by
  refine frees .string rfl (frees .string rfl (frees .string rfl (frees .string rfl (frees .string rfl ?_))))
  rw [Copies.pointers,← typed_pointer .string]
  exact free_spec _

theorem replaceHeader_spec (field : Field) (value : Bytes) :
    Spec grants (Copies.blocks copies) (replaceHeader (Copies.pointers copies) field value) fun headers leaves =>
      ∃ (after : Copies) (granted : Bool), headers = Copies.pointers after ∧ leaves = Copies.blocks after ∧
        Copies.values after = (if granted then Function.update (Copies.values copies) field (some (headerCopy value))
          else Copies.values copies) ∧ (Plenty grants → granted = true) := by
  refine .step (zero_add _).symm (malloc_spec (Cell.string (headerCopy value))) fun pointer leaves answered => ?_
  obtain ⟨slot,rfl,rfl,answers⟩ := answered
  cases slot with
  | none => exact .pure ⟨copies,false,rfl,zero_add _,rfl,answers.granted⟩
  | some block =>
    obtain ⟨n,cell⟩ := block
    obtain rfl : cell = .string (headerCopy value) := answers.value _ rfl
    refine frees .string (by rw [Copies.split copies field,add_left_comm]; rfl) ?_
    refine .pure ⟨Function.update copies field (some (n,headerCopy value)),true,?_,?_,?_,fun _ => rfl⟩
    · exact (update_through Slot.pointer copies field (some (n,headerCopy value))).symm
    · exact (Copies.joined copies field (some (n,headerCopy value))).symm
    · exact update_through Slot.value copies field (some (n,headerCopy value))

-- The pointers of a response of values.
def transferOf (data : Slot Bytes) (copies : Copies) (r : Response) : Transfer :=
  ⟨bufferOf data r.buffer,Copies.pointers copies,r.headersExceeded⟩

def heldBlocks (data : Slot Bytes) (copies : Copies) : Multiset (Nat × Cell) := dataBlocks data + Copies.blocks copies

structure Held (data : Slot Bytes) (copies : Copies) (r : Response) : Prop where
  body : r.buffer.data = contents data
  headers : r.headers = Copies.values copies
  fit : Fit r.buffer

-- A callback does what that of values does when it is told the same of memory.
structure Stepped (grants : Nat → Bool) (r : Response) (callback : Callback) (handled : Handled)
    (leaves : Multiset (Nat × Cell)) : Prop where
  told : ∃ (data : Slot Bytes) (copies : Copies) (granted : Bool) (next : Response) (returned : Nat),
    HttpResponse.step r (tell callback granted) = (next,returned) ∧ handled = ⟨transferOf data copies next,returned⟩ ∧
      leaves = heldBlocks data copies ∧ Held data copies next ∧ (Plenty grants → granted = true)

variable {r : Response}

theorem heldBlocks_nowhere (data : Slot Bytes) : heldBlocks data (fun _ => none) = dataBlocks data := by
  simp [heldBlocks,Copies.blocks,textBlocks_none]

theorem Stepped.same {callback : Callback} {next : Response} {returned : Nat} (held : Held data copies next)
    (value : HttpResponse.step r (tell callback true) = (next,returned)) :
    Stepped grants r callback ⟨transferOf data copies next,returned⟩ (heldBlocks data copies) :=
  ⟨data,copies,true,next,returned,value,rfl,rfl,held,fun _ => rfl⟩

theorem readResponseHeader_spec (held : Held data copies r) (chunk : Chunk) :
    Spec grants (heldBlocks data copies) (readResponseHeader (transferOf data copies r) chunk)
      (Stepped grants r (.header chunk)) := by
  by_cases huge : overflows chunk = true
  · rw [readResponseHeader,if_pos huge]
    refine .pure (.same held ?_)
    exact if_pos huge
  by_cases status : statusLine chunk.data = true
  · rw [readResponseHeader,if_neg huge,if_pos status]
    refine .step (add_comm _ _) (clearResponseHeaders_spec copies) fun _ leaves cleared => ?_
    rw [cleared,zero_add,← heldBlocks_nowhere]
    have emptied : Held data (fun _ => none) ⟨{ r.buffer with size := 0, exceeded := false },fun _ => none,false⟩ :=
      ⟨held.body,rfl,held.fit.reset⟩
    refine .pure (.same emptied ?_)
    exact (if_neg huge).trans (if_pos status)
  by_cases plain : (!chunk.data.contains colon) = true
  · rw [readResponseHeader,if_neg huge,if_neg status,if_pos plain]
    refine .pure (.same held ?_)
    exact (if_neg huge).trans ((if_neg status).trans (if_pos plain))
  have value (granted : Bool) : HttpResponse.step r (tell (.header chunk) granted) =
      HttpResponse.readResponseHeader r chunk granted := rfl
  simp only [HttpResponse.readResponseHeader,if_neg huge,if_neg status,if_neg plain] at value
  rw [readResponseHeader,if_neg huge,if_neg status,if_neg plain]
  cases found : target (chunk.data.takeWhile (· != colon)) with
  | none =>
    refine .pure (.same held ?_)
    rw [value,found]
  | some field =>
    dsimp only
    by_cases long : maxHeaderValueSize < (chunk.data.drop ((chunk.data.takeWhile (· != colon)).length + 1)).length
    · rw [if_pos long]
      have marked : Held data copies { r with headersExceeded := true } := ⟨held.body,held.headers,held.fit⟩
      refine .pure (.same marked ?_)
      rw [value,found]
      exact if_pos long
    rw [if_neg long]
    refine .step (add_comm _ _) (replaceHeader_spec field _) fun headers leaves replaced => ?_
    obtain ⟨after,granted,rfl,rfl,values,answered⟩ := replaced
    refine .pure ⟨data,after,granted,{ r with headers := Copies.values after },_,?_,rfl,add_comm _ _,
      ⟨held.body,rfl,held.fit⟩,answered⟩
    rw [value,found,values,← held.headers]
    dsimp only
    rw [if_neg long]
    cases granted <;> rfl

theorem step_spec (held : Held data copies r) (callback : Callback) :
    Spec grants (heldBlocks data copies) (step (transferOf data copies r) callback) (Stepped grants r callback) := by
  cases callback with
  | header chunk => exact readResponseHeader_spec held chunk
  | body chunk fresh =>
    refine .step rfl (writeResponse_spec held.fit held.body chunk fresh) fun written leaves wrote => ?_
    obtain ⟨after,granted,next,returned,value,rfl,rfl,filled,answered⟩ := wrote
    have fit : Fit next := by
      have kept := writeResponse_fit held.fit chunk (memory granted fresh)
      rwa [value] at kept
    refine .pure ⟨after,copies,granted,{ r with buffer := next },returned,?_,rfl,rfl,⟨filled,held.headers,fit⟩,answered⟩
    simp [tell,HttpResponse.step,value]

-- What the callbacks were told of memory.
def Told (grants : Nat → Bool) : List Callback → List HttpResponse.Callback → Prop :=
  List.Forall₂ fun callback told => ∃ granted, told = tell callback granted ∧ (Plenty grants → granted = true)

theorem told_rest (grants : Nat → Bool) (callbacks : List Callback) :
    Told grants callbacks (callbacks.map fun callback => tell callback true) := by
  induction callbacks with
  | nil => exact .nil
  | cons callback rest ih => exact .cons ⟨true,rfl,fun _ => rfl⟩ ih

theorem tell_chunk (callback : Callback) (granted : Bool) : (tell callback granted).chunk = callback.chunk := by
  cases callback <;> rfl

theorem perform_spec (callbacks : List Callback) (held : Held data copies r) :
    Spec grants (heldBlocks data copies) (perform (transferOf data copies r) callbacks) fun performed leaves =>
      ∃ (data : Slot Bytes) (copies : Copies) (told : List HttpResponse.Callback),
        performed = ⟨transferOf data copies (HttpResponse.perform r told).1,(HttpResponse.perform r told).2⟩ ∧
        leaves = heldBlocks data copies ∧ Held data copies (HttpResponse.perform r told).1 ∧ Told grants callbacks told := by
  induction callbacks generalizing data copies r with
  | nil => exact .pure ⟨data,copies,[],rfl,rfl,held,.nil⟩
  | cons callback rest ih =>
    refine .step (add_zero _).symm (step_spec held callback) fun handled leaves stepped => ?_
    obtain ⟨middle,texts,granted,next,returned,value,rfl,rfl,kept,answered⟩ := stepped.told
    rw [add_zero]
    have runs (told : List HttpResponse.Callback) : HttpResponse.perform r (tell callback granted :: told) =
        if (returned != callback.chunk.data.length) = true then (next,false) else HttpResponse.perform next told := by
      rw [HttpResponse.perform,HttpResponse.refuses,value,tell_chunk]
    by_cases refused : (returned != callback.chunk.data.length) = true
    · rw [if_pos refused]
      refine .pure ⟨middle,texts,tell callback granted :: rest.map fun callback => tell callback true,?_,rfl,?_,
        .cons ⟨granted,rfl,answered⟩ (told_rest grants rest)⟩
      · rw [runs,if_pos refused]
      · rw [runs,if_pos refused]
        exact kept
    · rw [if_neg refused]
      refine (ih kept).weaken fun performed leaves reached => ?_
      obtain ⟨data,copies,told,rfl,rfl,later,all⟩ := reached
      refine ⟨data,copies,tell callback granted :: told,?_,rfl,?_,.cons ⟨granted,rfl,answered⟩ all⟩
      · rw [runs,if_neg refused]
      · rw [runs,if_neg refused]
        exact later

theorem readBody_spec (same : b.data = contents data) (fit : Fit b) :
    Spec grants (dataBlocks data) (readBody (bufferOf data b)) fun body leaves =>
      body = b.data.take b.size ∧ leaves = dataBlocks data := by
  cases data with
  | none => exact .pure ⟨by simp [same,contents,Slot.value],rfl⟩
  | some block =>
    obtain ⟨n,bytes⟩ := block
    obtain rfl : b.data = bytes := same
    refine .step (add_zero _).symm (load_spec n (Cell.block b.data)) fun cell leaves loaded => ?_
    obtain ⟨rfl,rfl⟩ := loaded
    have within : b.size ≤ b.data.length := fit.block ▸ fit.bounded.capacity
    refine (show Spec grants _ (if _ then _ else _) _ from ?_)
    rw [if_pos (show (bufferOf (some (n,b.data)) b).size ≤ b.data.length from within)]
    exact .pure ⟨rfl,add_zero _⟩

theorem readString_spec (slot : Slot Bytes) :
    Spec grants (textBlocks slot) (readString (Slot.pointer slot)) fun value leaves =>
      value = (Slot.value slot).map Control.cString ∧ leaves = textBlocks slot := by
  cases slot with
  | none => exact .pure ⟨rfl,rfl⟩
  | some block =>
    obtain ⟨n,value⟩ := block
    refine .step (add_zero _).symm (load_spec n (Cell.string value)) fun cell leaves loaded => ?_
    obtain ⟨rfl,rfl⟩ := loaded
    exact .pure ⟨rfl,add_zero _⟩

theorem readFields_spec (copies : Copies) (fields : List Field) :
    Spec grants (Copies.blocks copies) (readFields (Copies.pointers copies) fields) fun values leaves =>
      leaves = Copies.blocks copies ∧
        ∀ field ∈ fields, values field = (Copies.values copies field).map Control.cString := by
  induction fields with
  | nil => exact .pure ⟨rfl,by simp⟩
  | cons field rest ih =>
    refine .step (Copies.split copies field) (readString_spec (copies field)) fun value leaves read => ?_
    obtain ⟨rfl,rfl⟩ := read
    rw [← Copies.split]
    refine .step (add_zero _).symm ih fun values leaves read => ?_
    obtain ⟨rfl,others⟩ := read
    refine .pure ⟨add_zero _,fun other mem => ?_⟩
    by_cases same : other = field
    · rw [same,Function.update_self]
      rfl
    · rw [Function.update_of_ne same]
      exact others other ((List.mem_cons.mp mem).resolve_left same)

theorem respond_spec (held : Held data copies r) (answers : Answers) :
    Spec grants (heldBlocks data copies) (respond answers (transferOf data copies r)) fun returned leaves =>
      leaves = heldBlocks data copies ∧
        returned = .response answers.status (HttpResponse.body r) answers.url (HttpResponse.returnedHeader r) := by
  refine .step rfl (readBody_spec held.body held.fit) fun body leaves read => ?_
  obtain ⟨rfl,rfl⟩ := read
  refine .step (add_comm _ _) (readFields_spec copies Field.all) fun headers leaves read => ?_
  obtain ⟨rfl,values⟩ := read
  refine .pure ⟨add_comm _ _,?_⟩
  have same : headers = HttpResponse.returnedHeader r := by
    funext field
    rw [values field (by cases field <;> decide),HttpResponse.returnedHeader,held.headers]
  rw [same]
  rfl

theorem release_spec (data : Slot Bytes) (copies : Copies) (r : Response) (headers curl : Slot Cell) :
    Spec grants (heldBlocks data copies + (headers.blocks + curl.blocks))
      (release (transferOf data copies r) headers.pointer curl.pointer) fun _ leaves => leaves = 0 := by
  refine frees .block (add_assoc _ _ _) ?_
  refine .step rfl (clearResponseHeaders_spec copies) fun _ leaves cleared => ?_
  rw [cleared,zero_add]
  exact .frees rfl (free_spec curl)

theorem opened_held {maximum : Nat} (limit : maximum ≤ HttpResponse.maximumLimit) :
    Held none (fun _ => none) (HttpResponse.opened maximum) :=
  ⟨rfl,rfl,rfl,⟨Nat.zero_le _,Nat.zero_le _⟩,limit⟩

theorem opened_blocks : heldBlocks none (fun _ => none) = 0 := by
  rw [heldBlocks_nowhere]
  rfl

-- A response carries what came since the last status line, within its bound.
structure Exact (maximum : Nat) (told : List HttpResponse.Callback) (body : Bytes) (headers : Field → Option Bytes) : Prop where
  whole : body = HttpResponse.bodySince told
  within : body.length ≤ maximum
  headers : ∀ field, headers field = (HttpResponse.headerSince field told).map Control.cString

section Exactness
variable {request : Request} {answers : Answers} {told : List HttpResponse.Callback} {returned : Returned}
variable {status : Int} {body : Bytes} {url : Option Bytes} {headers : Field → Option Bytes}

theorem told_allocates (plenty : Plenty grants) {callbacks : List Callback} (all : Told grants callbacks told) :
    ∀ callback ∈ told, callback.allocates = true := by
  induction all with
  | nil => simp
  | @cons callback heard rest others first _ ih =>
    obtain ⟨granted,rfl,answered⟩ := first
    have allocates : (tell callback granted).allocates = true := by
      rw [answered plenty]
      cases callback <;> rfl
    simpa using ⟨allocates,ih⟩

theorem delivered_exact {maximum : Nat} (limit : maximum ≤ HttpResponse.maximumLimit)
    (allocates : ∀ callback ∈ told, callback.allocates = true)
    (same : delivered answers maximum told = .response status body url headers) : Exact maximum told body headers := by
  rw [delivered] at same
  cases refused : answers.option with
  | some message =>
    rw [refused] at same
    cases same
  | none =>
    rw [refused] at same
    dsimp only [finished] at same
    cases failing : answers.failing (HttpResponse.perform (HttpResponse.opened maximum) told).2 with
    | some failure =>
      rw [failing] at same
      cases same
    | none =>
      rw [failing] at same
      cases same
      have completed : (HttpResponse.perform (HttpResponse.opened maximum) told).2 = true := by
        by_contra stopped
        rw [Answers.failing,if_neg stopped] at failing
        cases failing
      have sound := HttpResponse.perform_sound (HttpResponse.opened_sound maximum) limit allocates completed
      rw [List.nil_append] at sound
      refine ⟨sound.body,?_,fun field => ?_⟩
      · exact (List.length_take_le _ _).trans (sound.bounded.maximum.trans_eq sound.maximum)
      · rw [HttpResponse.returnedHeader,sound.headers]

-- A request is raised before it is sent, whatever it would be told, or sent.
theorem meant_cases (request : Request) (answers : Answers) :
    (∃ message, ∀ told, meant request answers told = .raised message) ∨
      (request.maxBytes.toNat ≤ HttpResponse.maximumLimit ∧
        ∀ told, meant request answers told = delivered answers request.maxBytes.toNat told) := by
  by_cases time : request.timeoutMs < 10 ∨ 600000 < request.timeoutMs
  · exact .inl ⟨_,fun told => if_pos time⟩
  by_cases bytes : request.maxBytes < 1 ∨ 16 * 1024 * 1024 < request.maxBytes
  · exact .inl ⟨_,fun told => (if_neg time).trans (if_pos bytes)⟩
  simp only [meant,if_neg time,if_neg bytes]
  cases answers.initialized with
  | some error => exact .inl ⟨_,fun told => rfl⟩
  | none =>
    cases requestFault request.headers with
    | some message => exact .inl ⟨message,fun told => rfl⟩
    | none =>
      refine .inr ⟨?_,fun told => rfl⟩
      unfold HttpResponse.maximumLimit
      omega

theorem meant_exact (allocates : ∀ callback ∈ told, callback.allocates = true)
    (same : meant request answers told = .response status body url headers) :
    Exact request.maxBytes.toNat told body headers := by
  rcases meant_cases request answers with ⟨message,raised⟩ | ⟨limit,sent⟩
  · cases (raised told).symm.trans same
  · exact delivered_exact limit allocates ((sent told).symm.trans same)

end Exactness

-- A request returns what is meant, unless there was no memory to start it. With
-- memory its response is exact.
def Right (grants : Nat → Bool) (request : Request) (answers : Answers) (returned : Returned) : Prop :=
  (∃ told, Told grants answers.callbacks told ∧ returned = meant request answers told ∧
    (Plenty grants → ∀ status body url headers, returned = .response status body url headers →
      Exact request.maxBytes.toNat told body headers)) ∨
    (¬Plenty grants ∧ (returned = .raised headersNoMemory ∨ returned = .raised requestNoMemory))

theorem Right.told {request : Request} {answers : Answers} {told : List HttpResponse.Callback} {returned : Returned}
    (all : Told grants answers.callbacks told) (same : returned = meant request answers told) :
    Right grants request answers returned :=
  .inl ⟨told,all,same,fun plenty _ _ _ _ response => meant_exact (told_allocates plenty all) (same.symm.trans response)⟩

theorem transferred_spec (held : Held data copies r) (answers : Answers) (headers curl : Slot Cell) (completed : Bool) :
    Spec grants (heldBlocks data copies + (headers.blocks + curl.blocks))
      (transferred answers headers.pointer curl.pointer ⟨transferOf data copies r,completed⟩) fun returned leaves =>
        leaves = 0 ∧ returned = finished answers (r,completed) := by
  rw [transferred,finished]
  cases failing : answers.failing completed with
  | some failure =>
    refine .step (add_zero _).symm (release_spec data copies r headers curl) fun _ leaves released => ?_
    rw [released]
    exact .pure ⟨rfl,rfl⟩
  | none =>
    refine .step rfl (respond_spec held answers) fun returned leaves responded => ?_
    obtain ⟨rfl,rfl⟩ := responded
    refine .step (add_zero _).symm (release_spec data copies r headers curl) fun _ leaves released => ?_
    rw [released]
    exact .pure ⟨rfl,rfl⟩

theorem transfer_spec (answers : Answers) {maximum : Nat} (limit : maximum ≤ HttpResponse.maximumLimit) (headers : Slot Cell)
    (n : Nat) :
    Spec grants (headers.blocks + {(n,Cell.curl)}) (transfer answers maximum headers.pointer (some n)) fun returned leaves =>
      leaves = 0 ∧ ∃ told, Told grants answers.callbacks told ∧ returned = delivered answers maximum told := by
  have none_held : headers.blocks + {(n,Cell.curl)} =
      heldBlocks none (fun _ => none) + (headers.blocks + Slot.blocks (some (n,Cell.curl))) := by
    rw [opened_blocks,zero_add]
    rfl
  rw [none_held]
  cases refused : answers.option with
  | some message =>
    rw [transfer,refused]
    refine .step (add_zero _).symm
      (release_spec none (fun _ => none) (HttpResponse.opened maximum) headers (some (n,.curl))) fun _ leaves released => ?_
    rw [released]
    refine .pure ⟨rfl,_,told_rest grants _,?_⟩
    rw [delivered,refused]
  | none =>
    rw [transfer,refused]
    have part : heldBlocks none (fun _ => none) + (headers.blocks + Slot.blocks (some (n,Cell.curl))) =
        {(n,Cell.curl)} + (heldBlocks none (fun _ => none) + headers.blocks) := by
      rw [← add_assoc]
      exact add_comm _ _
    refine .touches part (reaches (add_left_comm _ _ _) ?_)
    refine .step rfl (perform_spec answers.callbacks (opened_held limit)) fun performed leaves reached => ?_
    obtain ⟨data,copies,told,rfl,rfl,held,all⟩ := reached
    refine (transferred_spec held answers headers (some (n,.curl)) _).weaken fun returned leaves reached => ?_
    refine ⟨reached.1,told,all,?_⟩
    rw [delivered,refused]
    exact reached.2

theorem create_spec (answers : Answers) {maximum : Nat} (limit : maximum ≤ HttpResponse.maximumLimit) (headers : Slot Cell) :
    Spec grants headers.blocks (create answers maximum headers.pointer) fun returned leaves => leaves = 0 ∧
      ((∃ told, Told grants answers.callbacks told ∧ returned = delivered answers maximum told) ∨
        (¬Plenty grants ∧ returned = .raised requestNoMemory)) := by
  refine .step (zero_add _).symm (malloc_spec Cell.curl) fun pointer leaves answered => ?_
  obtain ⟨curl,rfl,rfl,given⟩ := answered
  cases curl with
  | none =>
    refine .frees (add_comm _ _) (.pure ⟨rfl,.inr ⟨fun plenty => ?_,rfl⟩⟩)
    cases given.granted plenty
  | some block =>
    obtain ⟨n,cell⟩ := block
    obtain rfl : cell = .curl := given.value _ rfl
    rw [add_comm]
    exact (transfer_spec answers limit headers n).weaken fun returned leaves reached => ⟨reached.1,.inl reached.2⟩

-- The list of request headers, or why there is none.
structure Listed (grants : Nat → Bool) (fault : Option Bytes) (result : Except Bytes Pointer)
    (leaves : Multiset (Nat × Cell)) : Prop where
  listed : ∀ pointer, result = .ok pointer →
    fault = none ∧ ∃ slot : Slot Cell, pointer = slot.pointer ∧ leaves = slot.blocks
  failed : ∀ message, result = .error message → leaves = 0 ∧
    (fault = some message ∨ (¬Plenty grants ∧ message = headersNoMemory))

theorem Listed.error {fault : Option Bytes} {message : Bytes}
    (why : fault = some message ∨ (¬Plenty grants ∧ message = headersNoMemory)) :
    Listed grants fault (.error message) 0 :=
  ⟨fun _ other => (by cases other),fun _ same => (by cases same; exact ⟨rfl,why⟩)⟩

theorem Listed.ok (slot : Slot Cell) : Listed grants none (.ok slot.pointer) slot.blocks :=
  ⟨fun _ same => (by cases same; exact ⟨rfl,slot,rfl,rfl⟩),fun _ other => (by cases other)⟩

theorem appendHeaders_spec (items : List (Option Bytes)) (headers : Slot Cell) :
    Spec grants headers.blocks (appendHeaders headers.pointer items) (Listed grants (headersFault items)) := by
  induction items generalizing headers with
  | nil => exact .pure (.ok headers)
  | cons item rest ih =>
    cases item with
    | none => exact .frees (add_zero _).symm (.pure (.error (.inl rfl)))
    | some header =>
      by_cases invalid : (!validRequestHeader header) = true
      · rw [appendHeaders,headersFault,if_pos invalid,if_pos invalid]
        exact .frees (add_zero _).symm (.pure (.error (.inl rfl)))
      rw [appendHeaders,headersFault,if_neg invalid,if_neg invalid]
      refine .step (add_zero _).symm (realloc_spec headers (appended header)) fun pointer leaves grown => ?_
      obtain ⟨given,rfl,rfl,answers⟩ := grown
      rw [add_zero]
      cases given with
      | none =>
        rw [Option.none_or]
        refine .frees (add_zero _).symm (.pure (.error (.inr ⟨fun plenty => ?_,rfl⟩)))
        cases answers.granted plenty
      | some block => exact ih (some block)

theorem readRequestHeaders_spec (headers : Option (List (Option Bytes))) :
    Spec grants 0 (readRequestHeaders headers) (Listed grants (requestFault headers)) := by
  cases headers with
  | none => exact .pure (.ok none)
  | some items =>
    rw [readRequestHeaders,requestFault]
    by_cases many : maxHeaderCount < items.length
    · rw [if_pos many,if_pos many]
      exact .pure (.error (.inl rfl))
    · rw [if_neg many,if_neg many]
      exact appendHeaders_spec items none

theorem lrequest_spec (request : Request) (answers : Answers) :
    Spec grants 0 (lrequest request answers) fun returned leaves => leaves = 0 ∧ Right grants request answers returned := by
  have early {message : Bytes} (raised : ∀ told, meant request answers told = .raised message) :
      Spec grants (0 : Multiset (Nat × Cell)) (pure (.raised message)) fun returned leaves =>
        leaves = 0 ∧ Right grants request answers returned :=
    .pure ⟨rfl,.told (told_rest grants answers.callbacks) (raised _).symm⟩
  by_cases time : request.timeoutMs < 10 ∨ 600000 < request.timeoutMs
  · rw [lrequest,if_pos time]
    exact early fun told => by rw [meant,if_pos time]
  by_cases bytes : request.maxBytes < 1 ∨ 16 * 1024 * 1024 < request.maxBytes
  · rw [lrequest,if_neg time,if_pos bytes]
    exact early fun told => by rw [meant,if_neg time,if_pos bytes]
  rw [lrequest,if_neg time,if_neg bytes]
  cases initialized : answers.initialized with
  | some error => exact early fun told => by rw [meant,if_neg time,if_neg bytes,initialized]
  | none =>
    have limit : request.maxBytes.toNat ≤ HttpResponse.maximumLimit := by
      unfold HttpResponse.maximumLimit
      omega
    have late (told : List HttpResponse.Callback) : meant request answers told =
        (requestFault request.headers).elim (delivered answers request.maxBytes.toNat told) .raised := by
      rw [meant,if_neg time,if_neg bytes,initialized]
      cases requestFault request.headers <;> rfl
    refine .step (zero_add _).symm (readRequestHeaders_spec request.headers) fun result leaves listed => ?_
    cases result with
    | error message =>
      obtain ⟨nothing,why⟩ := listed.failed message rfl
      rw [nothing]
      refine .pure ⟨rfl,?_⟩
      rcases why with fault | ⟨scarce,rfl⟩
      · exact .told (told_rest grants answers.callbacks) (by rw [late,fault]; rfl)
      · exact .inr ⟨scarce,.inl rfl⟩
    | ok pointer =>
      obtain ⟨sound,slot,rfl,rfl⟩ := listed.listed pointer rfl
      rw [add_zero]
      refine (create_spec answers limit slot).weaken fun returned leaves reached => ⟨reached.1,?_⟩
      rcases reached.2 with ⟨told,all,rfl⟩ | ⟨scarce,rfl⟩
      · exact .told all (by rw [late,sound]; rfl)
      · exact .inr ⟨scarce,.inr rfl⟩

def requests : List (Request × Answers) → Program Cell (List Returned)
  | [] => pure []
  | asked :: rest => do
    let returned ← lrequest asked.1 asked.2
    let others ← requests rest
    pure (returned :: others)

theorem requests_spec (asked : List (Request × Answers)) :
    Spec grants 0 (requests asked) fun returned leaves =>
      leaves = 0 ∧ List.Forall₂ (fun one answer => Right grants one.1 one.2 answer) asked returned := by
  induction asked with
  | nil => exact .pure ⟨rfl,.nil⟩
  | cons one rest ih =>
    refine .step (add_zero _).symm (lrequest_spec one.1 one.2) fun returned leaves first => ?_
    rw [first.1,add_zero]
    refine .step (add_zero _).symm ih fun others leaves later => ?_
    rw [later.1,add_zero]
    exact .pure ⟨rfl,.cons first.2 later.2⟩

-- Requests one after another, whatever libcurl answers and whichever requests
-- for memory are refused: none touches memory that is not there, each returns
-- what is meant, and in the end nothing is held.
theorem requests_leave_nothing (grants : Nat → Bool) (asked : List (Request × Answers)) :
    ∃ returned later, requests asked (boot grants) = some (returned,later) ∧ (∀ n, later.cells n = none) ∧
      List.Forall₂ (fun one answer => Right grants one.1 one.2 answer) asked returned := by
  obtain ⟨returned,later,ran,_,leaves,reached,holds⟩ := requests_spec asked (boot grants) 0 rfl (boot_holds grants)
  rw [reached.1] at holds
  refine ⟨returned,later,ran,fun n => ?_,reached.2⟩
  cases found : later.cells n with
  | none => rfl
  | some value => cases (holds.cells n value).mp found

def fetch : Request := ⟨5000,1024,some [some (text "Accept: text/plain"),some (text "If-None-Match: old")]⟩

-- A redirect whose headers give way to those of the answer.
def redirected : Answers where
  initialized := none
  option := none
  callbacks := [.header (piece "HTTP/1.1 302 Found\r\n"),.header (piece "ETag: old\r\n"),.body (piece "gone") fun _ => 0,
    .header (piece "http/2 200\r\n"),.header (piece "etag: new\r\n"),.body (piece "newer") fun _ => 0]
  refusal := ⟨[],text "Failed writing received data to disk/application"⟩
  failure := none
  status := 200
  url := none

-- The second header copy finds no memory.
def scarce (n : Nat) : Bool := n != 5

theorem redirected_leaves_nothing :
    ∃ returned later, requests [(fetch,redirected),(fetch,redirected)] (boot scarce) = some (returned,later) ∧
      (∀ n, later.cells n = none) ∧ List.Forall₂ (fun one answer => Right scarce one.1 one.2 answer)
        [(fetch,redirected),(fetch,redirected)] returned :=
  requests_leave_nothing scarce [(fetch,redirected),(fetch,redirected)]

end Hypringo.HttpHeap
