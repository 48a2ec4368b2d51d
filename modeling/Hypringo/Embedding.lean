import Hypringo.Control
import Hypringo.Fleet
import Hypringo.Lua.Quoted

namespace Hypringo.Embedding
open Hypringo.Lua Numeral Pattern Tokens Quoted Fleet
open Hypringo.Control (cString)

-- What a path of the repository holds, if anything.
abbrev Tree := Bytes → Option Bytes

-- The two columns of scripts/embed.lua.
def sources : List (Bytes × Bytes) :=
  [(text "ltask.bootstrap",text "3rd/ltask/lualib/bootstrap.lua"),
   (text "ltask.service",text "3rd/ltask/lualib/service.lua"),
   (text "service.logger",text "3rd/ltask/service/logger.lua"),
   (text "service.root",text "3rd/ltask/service/root.lua"),
   (text "service.timer",text "3rd/ltask/service/timer.lua"),
   (text "hypringo.actions",text "src/lualib/actions.lua"),
   (text "hypringo.config",text "src/lualib/config.lua"),
   (text "hypringo.doctor",text "src/lualib/doctor.lua"),
   (text "hypringo.hyprland",text "src/lualib/hyprland.lua"),
   (text "hypringo.remote",text "src/lualib/remote.lua"),
   (text "hypringo.runtime",text "src/lualib/runtime.lua"),
   (text "hypringo.state",text "src/lualib/state.lua"),
   (text "service.actions",text "src/service/actions.lua"),
   (text "service.audio",text "src/service/audio.lua"),
   (text "service.github",text "src/service/github.lua"),
   (text "service.hyprland",text "src/service/hyprland.lua"),
   (text "service.mpris",text "src/service/mpris.lua"),
   (text "service.main",text "src/service/main.lua"),
   (text "service.state",text "src/service/state.lua"),
   (text "service.system",text "src/service/system.lua"),
   (text "service.weather",text "src/service/weather.lua")]

-- string.format("%02x").
def hexDigit (n : Nat) : UInt8 := UInt8.ofNat (if n < 10 then 48 + n else 87 + n)

def hexByte (b : UInt8) : Bytes := text "0x" ++ [hexDigit (b.toNat / 16),hexDigit (b.toNat % 16)]

def lineBreak (index : Nat) : Bytes := if index % 12 = 0 then text "\n\t" else []

def writeBytes (index : Nat) : Bytes → Bytes
  | [] => text "\n"
  | b :: rest => lineBreak index ++ hexByte b ++ text "," ++ writeBytes (index+1) rest

def preamble : Bytes :=
  text "#ifndef HYPRINGO_EMBEDDED_SOURCES_H\n#define HYPRINGO_EMBEDDED_SOURCES_H\n\n#include <stddef.h>\n\n" ++
  text "struct hypringo_embedded_source \x7b\n\tconst char *name;\n\tconst unsigned char *data;\n\tsize_t size;\n\x7d;\n"

def tableOpening : Bytes :=
  text "\nstatic const struct hypringo_embedded_source hypringo_embedded_sources[] = \x7b\n"

def ending : Bytes :=
  text "\nstatic const size_t hypringo_embedded_source_count =\n" ++
  text "\tsizeof(hypringo_embedded_sources) / sizeof(hypringo_embedded_sources[0]);\n\n#endif\n"

def arrayName (index : Nat) : Bytes := text "hypringo_source_" ++ digits index

def writeArray (index : Nat) (data : Bytes) : Bytes :=
  text "\nstatic const unsigned char " ++ arrayName index ++ text "[] = \x7b" ++ writeBytes 0 data ++ text "\x7d;\n"

def writeEntry (index : Nat) (name : Bytes) : Bytes :=
  text "\t\x7b " ++ quoted name ++ text ", " ++ arrayName index ++ text ", sizeof(" ++ arrayName index ++ text ") \x7d,\n"

def writeArrays : Nat → List (Bytes × Bytes) → Bytes
  | _,[] => []
  | index,(_,data) :: rest => writeArray index data ++ writeArrays (index+1) rest

def writeEntries : Nat → List (Bytes × Bytes) → Bytes
  | _,[] => []
  | index,(name,_) :: rest => writeEntry index name ++ writeEntries (index+1) rest

def header (files : List (Bytes × Bytes)) : Bytes :=
  preamble ++ writeArrays 1 files ++ tableOpening ++ writeEntries 1 files ++ text "\x7d;\n" ++ ending

-- The script stops at the first file it cannot open.
def readAll (tree : Tree) (source : Bytes × Bytes) : Option (Bytes × Bytes) := do
  return (source.1,← tree source.2)

def embed (tree : Tree) : Option Bytes := do
  return header (← sources.mapM (readAll tree))

-- What the C compiler makes of the header. An array of no elements is refused.
def readConstant (bytes : Bytes) : Option (UInt8 × Bytes) :=
  match skip bytes with
  | zero :: mark :: rest =>
    let found := rest.takeWhile hexadecimal
    if zero = 48 ∧ mark = 120 ∧ found ≠ [] then some (UInt8.ofNat (hexNumber found),rest.drop found.length) else none
  | _ => none

def readArray (bytes : Bytes) : Option ((Bytes × Bytes) × Bytes) := do
  let (name,rest) ← word (← keyword (text "char") bytes)
  let rest ← symbol openBrace (← symbol 61 (← symbol 93 (← symbol 91 rest)))
  let (data,rest) ← braced readConstant (rest.length+1) rest
  let rest ← symbol 59 rest
  if data = [] then none else some ((name,data),rest)

def readLiteral (bytes : Bytes) : Option (Bytes × Bytes) := do
  let rest ← symbol quote bytes
  let name := rest.takeWhile (fun b => b != quote && b != backslash && b != newline)
  let rest ← symbol quote (rest.drop name.length)
  return (name,rest)

structure Entry where
  name : Bytes
  array : Bytes
  sized : Bytes
  deriving DecidableEq, Repr

def readEntry (bytes : Bytes) : Option (Entry × Bytes) := do
  let (name,rest) ← readLiteral (← symbol openBrace bytes)
  let (array,rest) ← word (← symbol comma rest)
  let (sized,rest) ← word (← symbol 40 (← keyword (text "sizeof") (← symbol comma rest)))
  let rest ← symbol closeBrace (← symbol 41 rest)
  return (⟨name,array,sized⟩,rest)

-- A pointer to one array with the size of another.
def link (arrays : List (Bytes × Bytes)) (entry : Entry) : Option (Bytes × Bytes) := do
  let data ← arrays.lookup entry.array
  let sized ← arrays.lookup entry.sized
  if sized.length ≤ data.length then some (entry.name,data.take sized.length) else none

def readTable (arrays : List (Bytes × Bytes)) (bytes : Bytes) : Option (List (Bytes × Bytes)) := do
  let rest ← keyword (text "hypringo_embedded_sources") (← keyword (text "hypringo_embedded_source") bytes)
  let rest ← symbol openBrace (← symbol 61 (← symbol 93 (← symbol 91 rest)))
  let (entries,rest) ← braced readEntry (rest.length+1) rest
  let rest ← symbol 59 rest
  if skip rest = skip ending then entries.mapM (link arrays) else none

def readDeclarations (arrays : List (Bytes × Bytes)) : Nat → Bytes → Option (List (Bytes × Bytes))
  | 0,_ => none
  | room+1,bytes => do
    let (kind,rest) ← word (← keyword (text "const") (← keyword (text "static") bytes))
    if kind = text "struct" then readTable arrays rest
    else if kind = text "unsigned" then do
      let (array,rest) ← readArray rest
      readDeclarations (arrays ++ [array]) room rest
    else none

def compile (bytes : Bytes) : Option (List (Bytes × Bytes)) := do
  let rest ← fixed preamble bytes
  readDeclarations [] rest.length rest

-- src/embed.c: names are compared as C strings.
def findSource (linked : List (Bytes × Bytes)) (name : Bytes) : Option Bytes :=
  (linked.find? fun source => cString source.1 == cString name).map Prod.snd

def get (linked : List (Bytes × Bytes)) (name : Bytes) : Except Bytes Bytes :=
  match findSource linked name with
  | some data => .ok data
  | none => .error (text "embedded source not found: " ++ cString name)

-- build_service_loader.
def loaderBody : Bytes :=
  text "for module_name, module_source in pairs(modules) do\n" ++
  text "\tpackage.preload[module_name] = function()\n" ++
  text "\t\treturn assert(load(module_source, \"=(module:\" .. module_name .. \")\", \"t\"))()\n" ++
  text "\tend\nend\nlocal name = ...\nlocal source = services[name]\nif not source then\n" ++
  text "\treturn nil, \"unknown embedded service: \" .. tostring(name)\nend\n" ++
  text "return assert(load(source, \"=(service:\" .. name .. \")\", \"t\"))\n"

def writeField (name source : Bytes) : Bytes := text "[" ++ quoted name ++ text "] = " ++ quoted source ++ text ","

def buildServiceLoader (get : Bytes → Except Bytes Bytes) : Except Bytes Bytes := do
  let services ← serviceNames.mapM fun name => do return writeField name (← get (text "service." ++ name))
  let modules ← moduleNames.mapM fun name => do return writeField name (← get name)
  return (text "\n").intercalate ([text "local services = \x7b"] ++ services ++ [text "\x7d",text "local modules = \x7b"] ++
    modules ++ [text "\x7d",loaderBody])

-- What Lua makes of the loader: the two tables, and what its body does with them.
structure Loader where
  services : List (Bytes × Bytes)
  modules : List (Bytes × Bytes)
  deriving DecidableEq, Repr

def readField (bytes : Bytes) : Option ((Bytes × Bytes) × Bytes) := do
  let (name,rest) ← readString (skip (← symbol 91 bytes))
  let (source,rest) ← readString (skip (← symbol 61 (← symbol 93 rest)))
  return ((name,source),rest)

def readLocal (name bytes : Bytes) : Option Bytes := do
  symbol openBrace (← symbol 61 (← keyword name (← keyword (text "local") bytes)))

def readFields (name bytes : Bytes) : Option (List (Bytes × Bytes) × Bytes) := do
  let rest ← readLocal name bytes
  braced readField (rest.length+1) rest

def readLoader (bytes : Bytes) : Option Loader := do
  let (services,rest) ← readFields (text "services") bytes
  let (modules,rest) ← readFields (text "modules") rest
  if skip rest = loaderBody then some ⟨services,modules⟩ else none

-- Of two fields with one key the later is kept.
def field (fields : List (Bytes × Bytes)) (name : Bytes) : Option Bytes := fields.reverse.lookup name

-- The source handed to load, and the name of its chunk.
def Loader.load (loader : Loader) (name : Bytes) : Except Bytes (Bytes × Bytes) :=
  match field loader.services name with
  | some source => .ok (text "=(service:" ++ name ++ text ")",source)
  | none => .error (text "unknown embedded service: " ++ name)

def Loader.preload (loader : Loader) (name : Bytes) : Option (Bytes × Bytes) :=
  (field loader.modules name).map fun source => (text "=(module:" ++ name ++ text ")",source)

theorem hex_roundtrip : ∀ n < 16, hexadecimal (hexDigit n) = true ∧ hexValue (hexDigit n) = n := by decide

-- An element with the blanks before it.
def element (index : Nat) (b : UInt8) : Bytes := lineBreak index ++ hexByte b

theorem lineBreak_blank (index : Nat) : ∀ b ∈ lineBreak index, space b = true := by
  have shape : text "\n\t" = [10,9] := by decide
  unfold lineBreak
  split
  · rw [shape]
    simp [space]
  · simp

theorem element_skip (index : Nat) (b : UInt8) (tail : Bytes) : skip (element index b ++ tail) = hexByte b ++ tail := by
  rw [element,List.append_assoc,skip_blank (lineBreak_blank index)]
  rfl

theorem element_readable (index : Nat) (b : UInt8) : Readable readConstant b (element index b) where
  reads tail := by
    obtain ⟨isHigh,high⟩ := hex_roundtrip (b.toNat / 16) (by have := b.toNat_lt; omega)
    obtain ⟨isLow,low⟩ := hex_roundtrip (b.toNat % 16) (by omega)
    have shape : hexByte b ++ comma :: tail =
        48 :: 120 :: ([hexDigit (b.toNat / 16),hexDigit (b.toNat % 16)] ++ comma :: tail) := rfl
    have taken : ([hexDigit (b.toNat / 16),hexDigit (b.toNat % 16)] ++ comma :: tail).takeWhile hexadecimal =
        [hexDigit (b.toNat / 16),hexDigit (b.toNat % 16)] := by
      rw [List.takeWhile_append_of_pos (by simp [isHigh,isLow]),List.takeWhile_cons_of_neg (by decide : ¬hexadecimal comma = true),List.append_nil]
    have value : UInt8.ofNat (hexNumber [hexDigit (b.toNat / 16),hexDigit (b.toNat % 16)]) = b := by
      simp only [hexNumber,List.foldl_cons,List.foldl_nil,high,low,Nat.zero_mul,Nat.zero_add,Nat.div_add_mod']
      exact UInt8.ofNat_toNat
    rw [readConstant,element_skip,shape]
    dsimp only
    rw [taken,value,if_pos ⟨rfl,rfl,List.cons_ne_nil _ _⟩]
    rfl
  opens tail := by
    rw [symbol,element_skip]
    rfl

def elements : Nat → Bytes → List (UInt8 × Bytes)
  | _,[] => []
  | index,b :: rest => (b,element index b) :: elements (index+1) rest

theorem elements_values (index : Nat) (data : Bytes) : (elements index data).map Prod.fst = data := by
  induction data generalizing index with
  | nil => rfl
  | cons b rest ih => simp [elements,ih]

theorem elements_readable (index : Nat) (data : Bytes) :
    ∀ piece ∈ elements index data, Readable readConstant piece.1 piece.2 := by
  induction data generalizing index with
  | nil => simp [elements]
  | cons b rest ih =>
    intro piece listed
    rcases List.mem_cons.mp listed with rfl | later
    · exact element_readable index b
    · exact ih (index+1) piece later

theorem writeBytes_pieces (index : Nat) (data : Bytes) :
    writeBytes index data = (elements index data).flatMap (fun piece => piece.2 ++ [comma]) ++ text "\n" := by
  induction data generalizing index with
  | nil => rfl
  | cons b rest ih =>
    have mark : text "," = [comma] := by decide
    simp [writeBytes,elements,element,ih,mark]

theorem data_read (data tail : Bytes) :
    braced readConstant ((writeBytes 0 data ++ closeBrace :: tail).length+1) (writeBytes 0 data ++ closeBrace :: tail) =
      some (data,tail) := by
  have closes : symbol closeBrace (text "\n" ++ closeBrace :: tail) = some tail := rfl
  have read := braced_text closes (elements 0 data) (elements_readable 0 data) rfl
  rw [elements_values,← List.append_assoc,← writeBytes_pieces] at read
  exact read

theorem arrayName_shape (index : Nat) : arrayName index ≠ [] ∧ ∀ b ∈ arrayName index, identifier b = true := by
  constructor
  · simp [arrayName,(digits_shape index).1]
  · intro b listed
    rcases List.mem_append.mp listed with fixed | number
    · have all : (text "hypringo_source_").all identifier = true := rfl
      exact List.all_eq_true.mp all b fixed
    · simp [identifier,alphanumeric,(digits_shape index).2 b number]

theorem arrayName_injective {i j : Nat} (same : arrayName i = arrayName j) : i = j := by
  have numbers := List.append_cancel_left same
  rw [← decimal_digits i,← decimal_digits j,numbers]

theorem arrayName_read (index : Nat) {tail : Bytes} (ended : ∀ b ∈ tail.head?, identifier b = false) :
    word (text " " ++ (arrayName index ++ tail)) = some (arrayName index,tail) ∧
      word (arrayName index ++ tail) = some (arrayName index,tail) := by
  obtain ⟨nonempty,named⟩ := arrayName_shape index
  have blank : text " " = [32] := rfl
  refine ⟨word_read ?_ nonempty named ended,?_⟩
  · rw [blank]
    simp [space]
  · have plain : arrayName index ++ tail = [] ++ (arrayName index ++ tail) := rfl
    rw [plain]
    exact word_read (by simp) nonempty named ended

theorem array_read (index : Nat) (data tail : Bytes) :
    readArray (text " char " ++ (arrayName index ++ (text "[] = \x7b" ++ (writeBytes 0 data ++ (text "\x7d;\n" ++ tail))))) =
      if data = [] then none else some ((arrayName index,data),text "\n" ++ tail) := by
  have typed : ∀ rest, keyword (text "char") (text " char " ++ rest) = some (text " " ++ rest) := fun _ => rfl
  have named : ∀ rest, word (text " " ++ (arrayName index ++ (text "[] = \x7b" ++ rest))) =
      some (arrayName index,text "[] = \x7b" ++ rest) := by
    intro rest
    refine (arrayName_read index fun b first => ?_).1
    have bracket : b = 91 := (Option.some.inj first).symm
    rw [bracket]
    rfl
  have opens : ∀ rest, symbol 91 (text "[] = \x7b" ++ rest) = some (text "] = \x7b" ++ rest) := fun _ => rfl
  have shuts : ∀ rest, symbol 93 (text "] = \x7b" ++ rest) = some (text " = \x7b" ++ rest) := fun _ => rfl
  have equals : ∀ rest, symbol 61 (text " = \x7b" ++ rest) = some (text " \x7b" ++ rest) := fun _ => rfl
  have begins : ∀ rest, symbol openBrace (text " \x7b" ++ rest) = some rest := fun _ => rfl
  have closing : text "\x7d;\n" ++ tail = closeBrace :: (text ";\n" ++ tail) := rfl
  have ends : ∀ rest, symbol 59 (text ";\n" ++ rest) = some (text "\n" ++ rest) := fun _ => rfl
  simp only [readArray,typed,Option.bind_eq_bind,Option.bind_some,named,opens,shuts,equals,begins,closing,data_read,ends]

-- What %q leaves as it is.
def plain : Pattern.Class := fun b => b != quote && b != backslash && b != newline && !control b

theorem quoteBody_plain {name : Bytes} (plainly : ∀ b ∈ name, plain b = true) : quoteBody name = name := by
  induction name with
  | nil => rfl
  | cons b rest ih =>
    have own := plainly b List.mem_cons_self
    simp only [plain,Bool.and_eq_true,bne_iff_ne,Bool.not_eq_true'] at own
    obtain ⟨⟨⟨unquoted,unslashed⟩,unbroken⟩,uncontrolled⟩ := own
    have kept : quoteByte b (rest.headD 0) = [b] := by
      rw [quoteByte,if_neg (by simp [unquoted,unslashed,unbroken]),if_neg (by simp [uncontrolled])]
    rw [quoteBody,kept,ih (fun c listed => plainly c (List.mem_cons_of_mem _ listed))]
    rfl

theorem literal_read {name : Bytes} (plainly : ∀ b ∈ name, plain b = true) (tail : Bytes) :
    readLiteral (text " " ++ (quoted name ++ tail)) = some (name,tail) := by
  have opens : symbol quote (text " " ++ (quoted name ++ tail)) = some (name ++ quote :: tail) := by
    have shape : text " " ++ (quoted name ++ tail) = 32 :: quote :: (name ++ quote :: tail) := by
      have blank : text " " = [32] := rfl
      simp [quoted,quoteBody_plain plainly,blank]
    rw [shape]
    rfl
  have taken : (name ++ quote :: tail).takeWhile (fun b => b != quote && b != backslash && b != newline) = name := by
    rw [List.takeWhile_append_of_pos,List.takeWhile_cons_of_neg (by decide),List.append_nil]
    intro b listed
    have own := plainly b listed
    rw [plain,Bool.and_eq_true] at own
    exact own.1
  have closes : symbol quote (quote :: tail) = some tail := rfl
  simp [readLiteral,opens,taken,closes]

def entry (index : Nat) (name : Bytes) : Bytes :=
  text "\n\t\x7b" ++ (text " " ++ (quoted name ++ (text ", " ++ (arrayName index ++ (text ", sizeof(" ++
    (arrayName index ++ text ") \x7d"))))))

theorem entry_readable (index : Nat) {name : Bytes} (plainly : ∀ b ∈ name, plain b = true) :
    Readable readEntry ⟨name,arrayName index,arrayName index⟩ (entry index name) where
  reads tail := by
    have begins : ∀ rest, symbol openBrace (text "\n\t\x7b" ++ rest) = some rest := fun _ => rfl
    have named := literal_read plainly
    have second : ∀ rest, symbol comma (text ", " ++ rest) = some (text " " ++ rest) := fun _ => rfl
    have array : ∀ rest, word (text " " ++ (arrayName index ++ (text ", sizeof(" ++ rest))) =
        some (arrayName index,text ", sizeof(" ++ rest) := by
      intro rest
      refine (arrayName_read index fun b first => ?_).1
      have mark : b = 44 := (Option.some.inj first).symm
      rw [mark]
      rfl
    have third : ∀ rest, symbol comma (text ", sizeof(" ++ rest) = some (text " sizeof(" ++ rest) := fun _ => rfl
    have size : ∀ rest, keyword (text "sizeof") (text " sizeof(" ++ rest) = some (text "(" ++ rest) := fun _ => rfl
    have opens : ∀ rest, symbol 40 (text "(" ++ rest) = some rest := fun _ => rfl
    have sized : ∀ rest, word (arrayName index ++ (text ") \x7d" ++ rest)) =
        some (arrayName index,text ") \x7d" ++ rest) := by
      intro rest
      refine (arrayName_read index fun b first => ?_).2
      have mark : b = 41 := (Option.some.inj first).symm
      rw [mark]
      rfl
    have shuts : ∀ rest, symbol 41 (text ") \x7d" ++ rest) = some (text " \x7d" ++ rest) := fun _ => rfl
    have ends : ∀ rest, symbol closeBrace (text " \x7d" ++ rest) = some rest := fun _ => rfl
    simp only [entry,readEntry,List.append_assoc,begins,named,second,array,third,size,opens,sized,shuts,ends,
      Option.bind_eq_bind,Option.bind_some]
    rfl
  opens _ := rfl

def entries : Nat → List (Bytes × Bytes) → List (Entry × Bytes)
  | _,[] => []
  | index,file :: rest => (⟨file.1,arrayName index,arrayName index⟩,entry index file.1) :: entries (index+1) rest

theorem entries_readable {files : List (Bytes × Bytes)} (plainly : ∀ file ∈ files, ∀ b ∈ file.1, plain b = true) (index : Nat) :
    ∀ piece ∈ entries index files, Readable readEntry piece.1 piece.2 := by
  induction files generalizing index with
  | nil => simp [entries]
  | cons file rest ih =>
    intro piece listed
    rcases List.mem_cons.mp listed with rfl | later
    · exact entry_readable index (plainly file List.mem_cons_self)
    · exact ih (fun other among => plainly other (List.mem_cons_of_mem _ among)) (index+1) piece later

theorem writeEntries_pieces (index : Nat) (files : List (Bytes × Bytes)) :
    text "\n" ++ writeEntries index files = (entries index files).flatMap (fun piece => piece.2 ++ [comma]) ++ text "\n" := by
  induction files generalizing index with
  | nil => rfl
  | cons file rest ih =>
    have start : text "\n\t\x7b" ++ (text " " : Bytes) = text "\n" ++ text "\t\x7b " := by decide
    have finish : text ") \x7d,\n" = text ") \x7d" ++ ([comma] ++ text "\n") := by decide
    have own : text "\n" ++ writeEntry index file.1 = entry index file.1 ++ ([comma] ++ text "\n") := by
      rw [writeEntry,entry,finish,← List.append_assoc (text "\n\t\x7b"),start]
      simp only [List.append_assoc]
    rw [writeEntries,entries,List.flatMap_cons,← List.append_assoc,own,List.append_assoc,List.append_assoc,ih]
    simp only [List.append_assoc]

def numbered : Nat → List (Bytes × Bytes) → List (Bytes × Bytes)
  | _,[] => []
  | index,file :: rest => (arrayName index,file.2) :: numbered (index+1) rest

theorem numbered_lookup (files : List (Bytes × Bytes)) : ∀ index i,
    (numbered index files).lookup (arrayName (index+i)) = files[i]?.map Prod.snd := by
  induction files with
  | nil =>
    intro index i
    rfl
  | cons file rest ih =>
    intro index i
    cases i with
    | zero => simp [numbered]
    | succ i =>
      have apart : ¬arrayName (index+(i+1)) = arrayName index := by
        intro same
        have equal := arrayName_injective same
        omega
      have next : index + (i+1) = index + 1 + i := by omega
      rw [numbered,List.lookup_cons,beq_eq_false_iff_ne.mpr apart,List.getElem?_cons_succ,next]
      exact ih (index+1) i

-- Every entry names the array written for its file.
theorem entries_linked {arrays : List (Bytes × Bytes)} (files : List (Bytes × Bytes)) : ∀ index,
    (∀ i, arrays.lookup (arrayName (index+i)) = files[i]?.map Prod.snd) →
      ((entries index files).map Prod.fst).mapM (link arrays) = some files := by
  induction files with
  | nil =>
    intro index found
    rfl
  | cons file rest ih =>
    intro index found
    have own : arrays.lookup (arrayName index) = some file.2 := found 0
    have later := ih (index+1) fun i => by
      have next := found (i+1)
      rwa [show index + (i+1) = index + 1 + i by omega,List.getElem?_cons_succ] at next
    simp [entries,link,own,later]

theorem table_read (files : List (Bytes × Bytes)) (plainly : ∀ file ∈ files, ∀ b ∈ file.1, plain b = true) :
    readTable (numbered 1 files) (text " hypringo_embedded_source hypringo_embedded_sources[] = \x7b\n" ++
      (writeEntries 1 files ++ (text "\x7d;\n" ++ ending))) = some files := by
  have named : ∀ rest, keyword (text "hypringo_embedded_source")
      (text " hypringo_embedded_source hypringo_embedded_sources[] = \x7b\n" ++ rest) =
        some (text " hypringo_embedded_sources[] = \x7b\n" ++ rest) := fun _ => rfl
  have typed : ∀ rest, keyword (text "hypringo_embedded_sources")
      (text " hypringo_embedded_sources[] = \x7b\n" ++ rest) = some (text "[] = \x7b\n" ++ rest) := fun _ => rfl
  have opens : ∀ rest, symbol 91 (text "[] = \x7b\n" ++ rest) = some (text "] = \x7b\n" ++ rest) := fun _ => rfl
  have shuts : ∀ rest, symbol 93 (text "] = \x7b\n" ++ rest) = some (text " = \x7b\n" ++ rest) := fun _ => rfl
  have equals : ∀ rest, symbol 61 (text " = \x7b\n" ++ rest) = some (text " \x7b\n" ++ rest) := fun _ => rfl
  have begins : ∀ rest, symbol openBrace (text " \x7b\n" ++ rest) = some (text "\n" ++ rest) := fun _ => rfl
  have closes : symbol closeBrace (text "\n" ++ (text "\x7d;\n" ++ ending)) = some (text ";\n" ++ ending) := rfl
  have written : text "\n" ++ (writeEntries 1 files ++ (text "\x7d;\n" ++ ending)) =
      (entries 1 files).flatMap (fun piece => piece.2 ++ [comma]) ++ (text "\n" ++ (text "\x7d;\n" ++ ending)) := by
    rw [← List.append_assoc,writeEntries_pieces,List.append_assoc]
  have read := braced_text closes (entries 1 files) (entries_readable plainly 1) written
  have ends : symbol 59 (text ";\n" ++ ending) = some (text "\n" ++ ending) := rfl
  have last : skip (text "\n" ++ ending) = skip ending := rfl
  have linked := entries_linked files 1 (numbered_lookup files 1)
  simp only [readTable,named,typed,opens,shuts,equals,begins,read,ends,last,if_true,linked,Option.bind_eq_bind,
    Option.bind_some]

-- A file with nothing in it leaves an array the compiler refuses.
theorem declaration_read (arrays : List (Bytes × Bytes)) (room index : Nat) (data tail : Bytes) :
    readDeclarations arrays (room+1) (writeArray index data ++ tail) =
      if data = [] then none else readDeclarations (arrays ++ [(arrayName index,data)]) room (text "\n" ++ tail) := by
  have shape : writeArray index data ++ tail = text "\nstatic const unsigned" ++ (text " char " ++ (arrayName index ++
      (text "[] = \x7b" ++ (writeBytes 0 data ++ (text "\x7d;\n" ++ tail))))) := by
    have start : text "\nstatic const unsigned char " = text "\nstatic const unsigned" ++ text " char " := rfl
    rw [writeArray,start]
    simp only [List.append_assoc]
  have stored : ∀ rest, keyword (text "static") (text "\nstatic const unsigned" ++ rest) =
      some (text " const unsigned" ++ rest) := fun _ => rfl
  have constant : ∀ rest, keyword (text "const") (text " const unsigned" ++ rest) = some (text " unsigned" ++ rest) :=
    fun _ => rfl
  have kind : ∀ rest, word (text " unsigned" ++ (text " char " ++ rest)) = some (text "unsigned",text " char " ++ rest) :=
    fun _ => rfl
  have other : ¬text "unsigned" = text "struct" := by decide
  rw [readDeclarations,shape]
  simp only [stored,constant,kind,if_neg other,if_true,array_read,Option.bind_eq_bind,Option.bind_some]
  by_cases empty : data = []
  · simp only [if_pos empty,Option.bind_none]
  · simp only [if_neg empty,Option.bind_some]

theorem declaration_blank (arrays : List (Bytes × Bytes)) (room : Nat) (bytes : Bytes) :
    readDeclarations arrays room (text "\n" ++ bytes) = readDeclarations arrays room bytes := by
  cases room <;> rfl

theorem declarations_read (files : List (Bytes × Bytes)) : ∀ (arrays : List (Bytes × Bytes)) (room index : Nat) (tail : Bytes),
    (∀ file ∈ files, file.2 ≠ []) → files.length ≤ room →
      readDeclarations arrays room (writeArrays index files ++ tail) =
        readDeclarations (arrays ++ numbered index files) (room - files.length) tail := by
  induction files with
  | nil =>
    intro arrays room index tail _ _
    simp [writeArrays,numbered]
  | cons file rest ih =>
    intro arrays room index tail nonempty large
    obtain ⟨less,rfl⟩ := Nat.exists_eq_succ_of_ne_zero (Nat.ne_zero_of_lt (Nat.lt_of_lt_of_le (Nat.succ_pos _) large))
    have later := ih (arrays ++ [(arrayName index,file.2)]) less (index+1) tail
      (fun other listed => nonempty other (List.mem_cons_of_mem _ listed)) (Nat.le_of_succ_le_succ large)
    have count : less.succ - (file :: rest).length = less - rest.length := by simp
    rw [writeArrays,List.append_assoc,Nat.succ_eq_add_one,declaration_read,if_neg (nonempty file List.mem_cons_self),
      declaration_blank,later,numbered,count,List.append_assoc]
    rfl

theorem declarations_refused {files : List (Bytes × Bytes)} : ∀ (arrays : List (Bytes × Bytes)) (room index : Nat) (tail : Bytes),
    (∃ file ∈ files, file.2 = []) → readDeclarations arrays room (writeArrays index files ++ tail) = none := by
  induction files with
  | nil => simp
  | cons file rest ih =>
    intro arrays room index tail empty
    cases room with
    | zero => rfl
    | succ room =>
      rw [writeArrays,List.append_assoc,declaration_read]
      by_cases own : file.2 = []
      · exact if_pos own
      · rw [if_neg own,declaration_blank]
        obtain ⟨found,listed,none⟩ := empty
        rcases List.mem_cons.mp listed with rfl | later
        · exact absurd none own
        · exact ih _ room (index+1) tail ⟨found,later,none⟩

theorem writeArrays_length (files : List (Bytes × Bytes)) : ∀ index, files.length ≤ (writeArrays index files).length := by
  induction files with
  | nil => exact fun _ => Nat.zero_le _
  | cons file rest ih =>
    intro index
    have later := ih (index+1)
    have own : 1 ≤ (writeArray index file.2).length := Nat.le_add_left _ _
    rw [writeArrays,List.length_append,List.length_cons]
    omega

theorem compile_header {files : List (Bytes × Bytes)} (nonempty : ∀ file ∈ files, file.2 ≠ [])
    (plainly : ∀ file ∈ files, ∀ b ∈ file.1, plain b = true) : compile (header files) = some files := by
  have shape : header files = preamble ++ (writeArrays 1 files ++ (tableOpening ++ (writeEntries 1 files ++
      (text "\x7d;\n" ++ ending)))) := by
    simp only [header,List.append_assoc]
  have stored : ∀ rest, keyword (text "static") (tableOpening ++ rest) = some
      (text " const struct hypringo_embedded_source hypringo_embedded_sources[] = \x7b\n" ++ rest) := fun _ => rfl
  have constant : ∀ rest, keyword (text "const")
      (text " const struct hypringo_embedded_source hypringo_embedded_sources[] = \x7b\n" ++ rest) = some
        (text " struct hypringo_embedded_source hypringo_embedded_sources[] = \x7b\n" ++ rest) := fun _ => rfl
  have kind : ∀ rest, word (text " struct hypringo_embedded_source hypringo_embedded_sources[] = \x7b\n" ++ rest) =
      some (text "struct",text " hypringo_embedded_source hypringo_embedded_sources[] = \x7b\n" ++ rest) := fun _ => rfl
  have long := writeArrays_length files 1
  have room : ∃ spare, (writeArrays 1 files ++ (tableOpening ++ (writeEntries 1 files ++
      (text "\x7d;\n" ++ ending)))).length - files.length = spare + 1 := by
    have opening : 1 ≤ tableOpening.length := Nat.le_add_left _ _
    refine Nat.exists_eq_succ_of_ne_zero ?_
    simp only [List.length_append]
    omega
  obtain ⟨spare,enough⟩ := room
  rw [compile,shape,fixed_read]
  dsimp only [Option.bind_eq_bind,Option.bind_some]
  rw [declarations_read files [] _ 1 _ nonempty (by rw [List.length_append]; omega),enough,readDeclarations]
  simp only [stored,constant,kind,if_true,Option.bind_eq_bind,Option.bind_some,List.nil_append]
  exact table_read files plainly

theorem compile_refused {files : List (Bytes × Bytes)} (empty : ∃ file ∈ files, file.2 = []) :
    compile (header files) = none := by
  have shape : header files = preamble ++ (writeArrays 1 files ++ (tableOpening ++ (writeEntries 1 files ++
      (text "\x7d;\n" ++ ending)))) := by
    simp only [header,List.append_assoc]
  rw [compile,shape,fixed_read]
  exact declarations_refused [] _ 1 _ empty

-- A field with the line break before it.
def fieldText (name source : Bytes) : Bytes := text "\n[" ++ (quoted name ++ (text "] = " ++ quoted source))

theorem field_readable (name source : Bytes) : Readable readField (name,source) (fieldText name source) where
  reads tail := by
    have begins : ∀ rest, symbol 91 (text "\n[" ++ rest) = some rest := fun _ => rfl
    have first : ∀ rest, skip (quoted name ++ rest) = quoted name ++ rest := fun _ => rfl
    have shuts : ∀ rest, symbol 93 (text "] = " ++ rest) = some (text " = " ++ rest) := fun _ => rfl
    have equals : ∀ rest, symbol 61 (text " = " ++ rest) = some (text " " ++ rest) := fun _ => rfl
    have second : ∀ rest, skip (text " " ++ (quoted source ++ rest)) = quoted source ++ rest := fun _ => rfl
    simp only [fieldText,readField,List.append_assoc,begins,first,shuts,equals,second,string_roundtrip,
      Option.bind_eq_bind,Option.bind_some]
    rfl
  opens _ := rfl

def fieldTexts (fields : List (Bytes × Bytes)) : List ((Bytes × Bytes) × Bytes) :=
  fields.map fun pair => (pair,fieldText pair.1 pair.2)

def writeFields (fields : List (Bytes × Bytes)) : Bytes :=
  fields.flatMap fun pair => writeField pair.1 pair.2 ++ text "\n"

theorem writeFields_pieces (fields : List (Bytes × Bytes)) :
    text "\n" ++ writeFields fields = (fieldTexts fields).flatMap (fun piece => piece.2 ++ [comma]) ++ text "\n" := by
  induction fields with
  | nil => rfl
  | cons pair rest ih =>
    have start : text "\n[" = text "\n" ++ text "[" := by decide
    have mark : text "," = [comma] := by decide
    have own : text "\n" ++ writeField pair.1 pair.2 = fieldText pair.1 pair.2 ++ [comma] := by
      rw [writeField,fieldText,start,mark]
      simp only [List.append_assoc]
    have later : text "\n" ++ writeFields (pair :: rest) =
        text "\n" ++ writeField pair.1 pair.2 ++ (text "\n" ++ writeFields rest) := by
      simp [writeFields]
    rw [later,own,ih]
    simp [fieldTexts]

theorem fields_read {name bytes ending tail : Bytes} (fields : List (Bytes × Bytes))
    (opens : readLocal name bytes = some (text "\n" ++ (writeFields fields ++ ending)))
    (closes : symbol closeBrace (text "\n" ++ ending) = some tail) : readFields name bytes = some (fields,tail) := by
  have readable : ∀ piece ∈ fieldTexts fields, Readable readField piece.1 piece.2 := by
    intro piece listed
    obtain ⟨pair,_,rfl⟩ := List.mem_map.mp listed
    exact field_readable pair.1 pair.2
  have written : text "\n" ++ (writeFields fields ++ ending) =
      (fieldTexts fields).flatMap (fun piece => piece.2 ++ [comma]) ++ (text "\n" ++ ending) := by
    rw [← List.append_assoc,writeFields_pieces,List.append_assoc]
  have read := braced_text closes (fieldTexts fields) readable written
  have values : (fieldTexts fields).map Prod.fst = fields := by
    rw [fieldTexts,List.map_map]
    exact List.map_id fields
  rw [values] at read
  simp only [readFields,opens,read,Option.bind_eq_bind,Option.bind_some]

theorem lines_joined (separator last : Bytes) (lines : List Bytes) :
    separator.intercalate (lines ++ [last]) = lines.flatMap (· ++ separator) ++ last := by
  induction lines with
  | nil => simp [List.intercalate]
  | cons line rest ih =>
    have more : ∃ next others, rest ++ [last] = next :: others := by
      cases rest with
      | nil => exact ⟨last,[],rfl⟩
      | cons next others => exact ⟨next,others ++ [last],rfl⟩
    obtain ⟨next,others,shape⟩ := more
    rw [List.cons_append,List.flatMap_cons,List.append_assoc,← ih,shape]
    simp [List.intercalate]

def loaderText (services modules : List (Bytes × Bytes)) : Bytes :=
  text "local services = \x7b\n" ++ (writeFields services ++ (text "\x7d\nlocal modules = \x7b\n" ++
    (writeFields modules ++ (text "\x7d\n" ++ loaderBody))))

theorem loader_read (services modules : List (Bytes × Bytes)) :
    readLoader (loaderText services modules) = some ⟨services,modules⟩ := by
  have opensServices : ∀ rest, readLocal (text "services") (text "local services = \x7b\n" ++ rest) =
      some (text "\n" ++ rest) := fun _ => rfl
  have closesServices : ∀ rest, symbol closeBrace (text "\n" ++ (text "\x7d\nlocal modules = \x7b\n" ++ rest)) =
      some (text "\nlocal modules = \x7b\n" ++ rest) := fun _ => rfl
  have opensModules : ∀ rest, readLocal (text "modules") (text "\nlocal modules = \x7b\n" ++ rest) =
      some (text "\n" ++ rest) := fun _ => rfl
  have closesModules : ∀ rest, symbol closeBrace (text "\n" ++ (text "\x7d\n" ++ rest)) = some (text "\n" ++ rest) :=
    fun _ => rfl
  have first := fields_read services (opensServices _) (closesServices (writeFields modules ++ (text "\x7d\n" ++ loaderBody)))
  have second := fields_read modules (opensModules _) (closesModules loaderBody)
  have body : skip (text "\n" ++ loaderBody) = loaderBody := rfl
  simp only [readLoader,loaderText,first,second,body,if_true,Option.bind_eq_bind,Option.bind_some]

-- The file whose code goes by a name.
def file (tree : Tree) (name : Bytes) : Option Bytes := (sources.lookup name).bind tree

def contents (tree : Tree) : List (Bytes × Bytes) := sources.map fun source => (source.1,(tree source.2).getD [])

structure Intact (tree : Tree) (linked : List (Bytes × Bytes)) (loader : Loader) : Prop where
  embedded : ∀ name, get linked name =
    (file tree (cString name)).elim (.error (text "embedded source not found: " ++ cString name)) .ok
  service : ∀ name ∈ serviceNames, ∃ source, file tree (text "service." ++ name) = some source ∧
    loader.load name = .ok (text "=(service:" ++ name ++ text ")",source)
  unknown : ∀ name, name ∉ serviceNames → loader.load name = .error (text "unknown embedded service: " ++ name)
  module : ∀ name ∈ moduleNames, ∃ source, file tree name = some source ∧
    loader.preload name = some (text "=(module:" ++ name ++ text ")",source)
  others : ∀ name, name ∉ moduleNames → loader.preload name = none

def Complete (tree : Tree) : Prop := ∀ source ∈ sources, ∃ data, tree source.2 = some data ∧ data ≠ []

variable {tree : Tree}

theorem embed_present (present : ∀ source ∈ sources, ∃ data, tree source.2 = some data) :
    embed tree = some (header (contents tree)) := by
  have all : ∀ rows : List (Bytes × Bytes), (∀ source ∈ rows, ∃ data, tree source.2 = some data) →
      rows.mapM (readAll tree) = some (rows.map fun source => (source.1,(tree source.2).getD [])) := by
    intro rows
    induction rows with
    | nil => exact fun _ => rfl
    | cons row rest ih =>
      intro found
      obtain ⟨data,held⟩ := found row List.mem_cons_self
      have own : readAll tree row = some (row.1,(tree row.2).getD []) := by simp [readAll,held]
      have later := ih fun source listed => found source (List.mem_cons_of_mem _ listed)
      rw [List.mapM_cons,own,later]
      rfl
  rw [embed,all sources present]
  rfl

theorem embed_missing {source : Bytes × Bytes} (listed : source ∈ sources) (missing : tree source.2 = none) :
    embed tree = none := by
  have all : ∀ rows : List (Bytes × Bytes), source ∈ rows → rows.mapM (readAll tree) = none := by
    intro rows
    induction rows with
    | nil => simp
    | cons row rest ih =>
      intro among
      rw [List.mapM_cons]
      rcases List.mem_cons.mp among with rfl | later
      · simp [readAll,missing]
      · cases own : readAll tree row with
        | none => rfl
        | some found =>
          rw [ih later]
          rfl
  rw [embed,all sources listed]
  rfl

theorem names_plain : ∀ source ∈ sources, ∀ b ∈ source.1, plain b = true := by
  have all : sources.all (fun source => source.1.all plain) = true := by decide +kernel
  intro source listed
  exact List.all_eq_true.mp (List.all_eq_true.mp all source listed)

theorem contents_plain : ∀ entry ∈ contents tree, ∀ b ∈ entry.1, plain b = true := by
  intro entry listed
  obtain ⟨source,among,rfl⟩ := List.mem_map.mp listed
  exact names_plain source among

-- The build succeeds exactly when every file is there and none is empty.
theorem built_complete (linked : List (Bytes × Bytes)) :
    (embed tree).bind compile = some linked ↔ Complete tree ∧ linked = contents tree := by
  by_cases present : ∀ source ∈ sources, ∃ data, tree source.2 = some data
  · rw [embed_present present,Option.bind_some]
    by_cases empty : ∃ entry ∈ contents tree, entry.2 = []
    · rw [compile_refused empty]
      refine ⟨by simp,fun built => ?_⟩
      obtain ⟨entry,listed,none⟩ := empty
      obtain ⟨source,among,rfl⟩ := List.mem_map.mp listed
      obtain ⟨data,found,some⟩ := built.1 source among
      rw [found] at none
      exact absurd none some
    · have nonempty : ∀ entry ∈ contents tree, entry.2 ≠ [] := fun entry listed none => empty ⟨entry,listed,none⟩
      rw [compile_header nonempty contents_plain,Option.some.injEq]
      refine ⟨fun same => ⟨fun source listed => ?_,same.symm⟩,fun built => built.2.symm⟩
      obtain ⟨data,found⟩ := present source listed
      have filled := nonempty _ (List.mem_map_of_mem listed)
      exact ⟨data,found,by simpa [found] using filled⟩
  · have missing : ∃ source ∈ sources, tree source.2 = none := by
      by_contra none
      refine present fun source listed => ?_
      exact Option.ne_none_iff_exists'.mp fun absent => none ⟨source,listed,absent⟩
    obtain ⟨source,listed,absent⟩ := missing
    rw [embed_missing listed absent]
    refine ⟨by simp,fun built => ?_⟩
    obtain ⟨data,found,_⟩ := built.1 source listed
    rw [absent] at found
    cases found

theorem plain_string {name : Bytes} (plainly : ∀ b ∈ name, plain b = true) : cString name = name := by
  refine List.takeWhile_eq_self_iff.mpr fun b listed => ?_
  have own := plainly b listed
  simp only [bne_iff_ne,ne_eq]
  rintro rfl
  exact absurd own (by decide)

theorem contents_found (complete : Complete tree) (name : Bytes) :
    findSource (contents tree) name = file tree (cString name) := by
  have all : ∀ rows : List (Bytes × Bytes), (∀ source ∈ rows, source ∈ sources) →
      findSource (rows.map fun source => (source.1,(tree source.2).getD [])) name =
        (rows.lookup (cString name)).bind tree := by
    intro rows
    induction rows with
    | nil => exact fun _ => rfl
    | cons row rest ih =>
      intro known
      obtain ⟨data,found,_⟩ := complete row (known row List.mem_cons_self)
      have own := plain_string (names_plain row (known row List.mem_cons_self))
      have later := ih fun source listed => known source (List.mem_cons_of_mem _ listed)
      rw [findSource] at later
      by_cases same : row.1 = cString name
      · have hit : (cString row.1 == cString name) = true := beq_iff_eq.mpr (own.trans same)
        rw [List.lookup_cons,beq_iff_eq.mpr same.symm]
        simp only [findSource,List.map_cons,List.find?_cons,hit]
        simp [found]
      · have apart : (cString name == row.1) = false := beq_eq_false_iff_ne.mpr fun equal => same equal.symm
        rw [findSource,List.map_cons,List.find?_cons_of_neg (by simpa [own] using same),later,List.lookup_cons,apart]
  exact all sources fun _ listed => listed

theorem mapped_lookup (f : Bytes → Bytes) (names : List Bytes) (name : Bytes) :
    field (names.map fun name => (name,f name)) name = if name ∈ names then some (f name) else none := by
  have all : ∀ rows : List Bytes, (rows.map fun name => (name,f name)).lookup name =
      if name ∈ rows then some (f name) else none := by
    intro rows
    induction rows with
    | nil => rfl
    | cons row rest ih =>
      rw [List.map_cons,List.lookup_cons,ih]
      by_cases same : name = row
      · simp [same]
      · rw [beq_eq_false_iff_ne.mpr same]
        simp [same]
  rw [field,← List.map_reverse,all]
  simp

theorem service_listed : ∀ name ∈ serviceNames, (sources.lookup (text "service." ++ name)).isSome = true := by decide +kernel
theorem module_listed : ∀ name ∈ moduleNames, (sources.lookup name).isSome = true := by decide +kernel

theorem file_present (complete : Complete tree) {name : Bytes} (listed : (sources.lookup name).isSome = true) :
    ∃ source, file tree name = some source := by
  obtain ⟨path,found⟩ := Option.isSome_iff_exists.mp listed
  have among : (name,path) ∈ sources := by
    rw [List.lookup_eq_some_iff] at found
    obtain ⟨before,after,shape,_⟩ := found
    simp [shape]
  obtain ⟨data,held,_⟩ := complete _ among
  exact ⟨data,by rw [file,found]; exact held⟩

theorem written (f : Bytes → Bytes) {g : Bytes → Except Bytes Bytes} {names : List Bytes}
    (got : ∀ name ∈ names, g name = .ok (f name)) :
    names.mapM (fun name => do return writeField name (← g name)) = .ok (names.map fun name => writeField name (f name)) := by
  refine Raise.mapM_ok.mpr (List.forall₂_map_right_iff.mpr (List.forall₂_same.mpr fun name listed => ?_))
  rw [got name listed]
  rfl

theorem generated_text {f : Bytes → Bytes} {g : Bytes → Except Bytes Bytes}
    (services : ∀ name ∈ serviceNames, g (text "service." ++ name) = .ok (f (text "service." ++ name)))
    (modules : ∀ name ∈ moduleNames, g name = .ok (f name)) :
    buildServiceLoader g = .ok (loaderText (serviceNames.map fun name => (name,f (text "service." ++ name)))
      (moduleNames.map fun name => (name,f name))) := by
  have first := written (fun name => f (text "service." ++ name)) (g := fun name => g (text "service." ++ name)) services
  have second := written f modules
  have fields : ∀ (h : Bytes → Bytes) (names : List Bytes),
      (names.map fun name => writeField name (h name)).flatMap (· ++ text "\n") = writeFields (names.map fun name => (name,h name)) := by
    intro h names
    simp [writeFields,List.flatMap_map]
  have between : text "\x7d" ++ text "\n" ++ (text "local modules = \x7b" ++ text "\n") = text "\x7d\nlocal modules = \x7b\n" := by
    decide
  have lines : ∀ services modules : List Bytes, (text "\n").intercalate ([text "local services = \x7b"] ++ services ++
      [text "\x7d",text "local modules = \x7b"] ++ modules ++ [text "\x7d",loaderBody]) =
        text "local services = \x7b\n" ++ (services.flatMap (· ++ text "\n") ++ (text "\x7d\nlocal modules = \x7b\n" ++
          (modules.flatMap (· ++ text "\n") ++ (text "\x7d\n" ++ loaderBody)))) := by
    intro services modules
    have split : [text "local services = \x7b"] ++ services ++ [text "\x7d",text "local modules = \x7b"] ++ modules ++
        [text "\x7d",loaderBody] = ([text "local services = \x7b"] ++ services ++ [text "\x7d",text "local modules = \x7b"] ++
          modules ++ [text "\x7d"]) ++ [loaderBody] := by simp
    have opening : text "local services = \x7b\n" = text "local services = \x7b" ++ text "\n" := by decide
    have closing : text "\x7d\n" = text "\x7d" ++ text "\n" := by decide
    rw [split,lines_joined,← between,opening,closing]
    simp only [List.flatMap_append,List.flatMap_cons,List.flatMap_nil,List.append_nil,List.append_assoc]
  refine Raise.bind_ok.mpr ⟨_,first,Raise.bind_ok.mpr ⟨_,second,?_⟩⟩
  rw [lines,fields f,fields fun name => f (text "service." ++ name)]
  rfl

-- From the files to what the services load, through both generated texts.
theorem embedding_intact (tree : Tree) :
    (∀ linked, (embed tree).bind compile = some linked ↔ Complete tree ∧ linked = contents tree) ∧
      (Complete tree → ∃ generated loader, buildServiceLoader (get (contents tree)) = .ok generated ∧
        readLoader generated = some loader ∧ Intact tree (contents tree) loader) := by
  refine ⟨built_complete,fun complete => ?_⟩
  have embedded : ∀ name, get (contents tree) name =
      (file tree (cString name)).elim (.error (text "embedded source not found: " ++ cString name)) .ok := by
    intro name
    rw [get,contents_found complete]
    cases file tree (cString name) <;> rfl
  have plainly : ∀ name, (sources.lookup name).isSome = true → cString name = name := by
    intro name listed
    obtain ⟨path,found⟩ := Option.isSome_iff_exists.mp listed
    obtain ⟨before,after,shape,_⟩ := List.lookup_eq_some_iff.mp found
    exact plain_string (names_plain (name,path) (by simp [shape]))
  have got : ∀ name, (sources.lookup name).isSome = true →
      get (contents tree) name = .ok ((file tree name).getD []) := by
    intro name listed
    obtain ⟨source,found⟩ := file_present complete listed
    rw [embedded,plainly name listed,found]
    rfl
  have built := generated_text (f := fun name => (file tree name).getD [])
    (fun name listed => got _ (service_listed name listed)) (fun name listed => got name (module_listed name listed))
  have services := mapped_lookup (fun name => (file tree (text "service." ++ name)).getD []) serviceNames
  have modules := mapped_lookup (fun name => (file tree name).getD []) moduleNames
  refine ⟨_,_,built,loader_read _ _,embedded,?_,?_,?_,?_⟩
  · intro name listed
    obtain ⟨source,found⟩ := file_present complete (service_listed name listed)
    refine ⟨source,found,?_⟩
    rw [Loader.load,services,if_pos listed,found]
    rfl
  · intro name unlisted
    rw [Loader.load,services,if_neg unlisted]
  · intro name listed
    obtain ⟨source,found⟩ := file_present complete (module_listed name listed)
    refine ⟨source,found,?_⟩
    rw [Loader.preload,modules,if_pos listed,found]
    rfl
  · intro name unlisted
    rw [Loader.preload,modules,if_neg unlisted]
    rfl

-- Zero bytes, digits after them, quotes, backslashes and line breaks.
def awkward : Tree := fun path => some (path ++ [0,49,34,92,10,13,255])

theorem awkward_intact : ∃ generated loader, buildServiceLoader (get (contents awkward)) = .ok generated ∧
    readLoader generated = some loader ∧ Intact awkward (contents awkward) loader :=
  (embedding_intact awkward).2 fun _ _ => ⟨_,rfl,by simp⟩

end Hypringo.Embedding
