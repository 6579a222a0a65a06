import Nscp.Service.Commands
import Nscp.Service.Permissions

/-!
# Running a query

`plugin_manager::execute_query` answers a request for one command in its header, or for a
batch of commands in its payloads.  Each command is resolved to a plugin and checked
against the permissions; what is allowed is handed to the plugins, one request for each,
and their answers are put together with the denials.
-/

namespace Nscp.Service

open Permissions (makeObject makeSubject)

/-! ## Messages -/

structure KeyValue where
  key : List Char
  value : List Char
  deriving DecidableEq

structure Header where
  command : List Char := []
  metadata : List KeyValue := []
  deriving DecidableEq

structure Request where
  command : List Char
  arguments : List (List Char) := []
  deriving DecidableEq

structure QueryRequest where
  header : Header := {}
  payload : List Request := []
  deriving DecidableEq

inductive ResultCode where
  | ok
  | warning
  | critical
  | unknown
  deriving DecidableEq

structure Response where
  command : List Char
  result : ResultCode
  lines : List (List Char)
  deriving DecidableEq

/-- A response has a header once one was written to it. -/
structure QueryResponse where
  header : Option Header := none
  payload : List Response := []
  deriving DecidableEq

def setResponseBad (command message : List Char) : Response :=
  ⟨if command = [] then "unknown".toList else command, .unknown, [message]⟩

def appendList (lst append : List Char) (sep : List Char) : List Char :=
  if append = [] then lst else if lst = [] then append else lst ++ sep ++ append

def joinCommands (commands : List (List Char)) : List Char :=
  commands.foldl (fun lst c => appendList lst c ", ".toList) []

/-! ## Unknown commands -/

def annotate (command : List Char) (providers : List (List Char)) : List Char :=
  match providers with
  | [] => command
  | [module] =>
    command ++ " (provided by module ".toList ++ module ++
      ", which is not loaded: add \"".toList ++ module ++
      " = enabled\" under [/modules] and restart)".toList
  | modules =>
    command ++ " (provided by modules ".toList ++
      modules.foldl (fun names m => appendList names m " or ".toList) [] ++
      ", none of which is loaded: enable one of them under [/modules] and restart)".toList

def unknownCommandsMessage (providers : List Char → List (List Char)) (pre : List Char)
    (commands : List (List Char)) : List Char :=
  pre ++ joinCommands (commands.map fun c => annotate c (providers c))

def unknownPayload (providers : List Char → List (List Char)) (commands : List (List Char)) :
    Response :=
  setResponseBad (joinCommands commands)
    (unknownCommandsMessage providers "Unknown command(s): ".toList commands)

/-! ## The caller -/

structure CacheItem where
  id : ℕ
  dll : List Char
  itemAlias : List Char
  deriving DecidableEq

def findPluginAlias (cache : List CacheItem) (id : ℕ) : List Char :=
  match cache.find? (fun item => item.id = id) with
  | none => "Failed to find plugin: ".toList ++ Text.decimal id
  | some item => if item.itemAlias ≠ [] then item.itemAlias else item.dll

/-- `boost::lexical_cast<long>`, which throws on anything but a number. -/
def stoxLong (s : List Char) : Option ℤ :=
  let digits (ds : List Char) : Option ℕ :=
    if ds.all Char.isDigit then Text.leadingNatural ds else none
  let value : Option ℤ := match Permissions.cStr s with
    | '-' :: ds => (digits ds).map fun n => -(n : ℤ)
    | '+' :: ds => (digits ds).map Int.ofNat
    | ds => (digits ds).map Int.ofNat
  value.filter fun n => decide (-2 ^ 63 ≤ n ∧ n < 2 ^ 63)

def metadataValue (header : Header) (key : List Char) : List Char :=
  header.metadata.foldl (fun value kv => if kv.key = key then kv.value else value) []

/-- The caller's module; the text for an id that is not in the cache is not a module. -/
def callerModule (cache : List CacheItem) (pluginId : List Char) : List Char :=
  if pluginId = [] then []
  else
    match stoxLong pluginId with
    | none => []
    | some n =>
      let module := findPluginAlias cache (n % 2 ^ 32).toNat
      if module.take 21 = "Failed to find plugin".toList then [] else module

def extractSubject (cache : List CacheItem) (header : Header) : List Char :=
  let module := callerModule cache (metadataValue header "nscp.caller_plugin_id".toList)
  makeSubject (if module = [] then "*".toList else module)
    (metadataValue header "nscp.principal".toList)

/-! ## Denials -/

def deniedPayload (command subject : List Char) : Response :=
  setResponseBad command
    ("Permission denied: ".toList ++ subject ++ " is not allowed to run ".toList ++ command)

def emitDeniedPayload (subject : List Char) (response : QueryResponse) (command : List Char) :
    QueryResponse :=
  let header := response.header.getD {}
  { header := some { header with
      metadata := header.metadata ++ [⟨"nscp.query_denied".toList, command⟩] }
    payload := response.payload ++ [deniedPayload command subject] }

/-- The commands marked as denied in a header. -/
def markers (header : Option Header) : List (List Char) :=
  ((header.getD {}).metadata.filter fun kv => kv.key = "nscp.query_denied".toList).map (·.value)

/-! ## Sorting a batch -/

/-- A plugin object is made with an id of its own, so the id identifies it. -/
structure Manager where
  commands : Commands
  permissions : Permissions
  cache : List CacheItem
  distinct : ∀ c c' p p', commands.get c = some p → commands.get c' = some p' →
    p.id = p'.id → p = p'

def Manager.allows (m : Manager) (subject : List Char) (plugin : Plugin) (command : List Char) :
    Bool :=
  m.permissions.isAllowed subject (makeObject plugin.getName command)

structure Chunk where
  plugin : Plugin
  request : QueryRequest

def addToChunk (header : Header) : List Chunk → Plugin × Request → List Chunk
  | [], x => [⟨x.1, ⟨header, [x.2]⟩⟩]
  | c :: cs, x =>
    if c.plugin.id = x.1.id then
      ⟨c.plugin, ⟨c.request.header, c.request.payload ++ [x.2]⟩⟩ :: cs
    else c :: addToChunk header cs x

structure Batch where
  response : QueryResponse := {}
  chunks : List Chunk := []
  missingCommands : List Char := []
  missingList : List (List Char) := []

def Manager.sortPayload (m : Manager) (header : Header) (subject : List Char) (b : Batch)
    (payload : Request) : Batch :=
  let command := Commands.makeKey payload.command
  match m.commands.get command with
  | some plugin =>
    if m.allows subject plugin command then
      { b with chunks := addToChunk header b.chunks (plugin, { payload with command }) }
    else { b with response := emitDeniedPayload subject b.response command }
  | none => { b with
      missingCommands := appendList b.missingCommands command ", ".toList
      missingList := b.missingList ++ [command] }

/-! ## Dispatch -/

/-- What `handleCommand` does with a request. -/
inductive Reply where
  | success (response : QueryResponse)
  | failure
  | thrown

/-- The plugins, the order in which the chunks are kept, and the table of modules that
provide a command. -/
structure Plugins where
  handleCommand : Plugin → QueryRequest → Reply
  order : List Chunk → List Chunk
  order_perm : ∀ chunks, (order chunks).Perm chunks
  providersOf : List Char → List (List Char)

/-- The requests handed to plugins, in this order, and the response unless the query has
failed. -/
structure Outcome where
  dispatched : List (Plugin × QueryRequest)
  response : Option QueryResponse

def mergeResponse (response answer : QueryResponse) : QueryResponse where
  header := some (response.header.getD (answer.header.getD {}))
  payload := response.payload ++ answer.payload

def dispatch (plugins : Plugins) : List Chunk → QueryResponse → Outcome
  | [], response => ⟨[], some response⟩
  | c :: cs, response =>
    match plugins.handleCommand c.plugin c.request with
    | .success answer =>
      let rest := dispatch plugins cs (mergeResponse response answer)
      ⟨(c.plugin, c.request) :: rest.dispatched, rest.response⟩
    | .failure =>
      let rest := dispatch plugins cs response
      ⟨(c.plugin, c.request) :: rest.dispatched, rest.response⟩
    | .thrown => ⟨[(c.plugin, c.request)], none⟩

/-! ## The query -/

def maxQueryDepth : ℕ := 16

def describeRequestedCommands (request : QueryRequest) : List Char :=
  if request.header.command ≠ [] then request.header.command
  else
    let commands := joinCommands (request.payload.map (·.command))
    if commands = [] then "(no command)".toList else commands

def tooDeep (request : QueryRequest) : QueryResponse where
  payload := [setResponseBad (describeRequestedCommands request)
    ("Command nesting too deep (limit ".toList ++ Text.decimal maxQueryDepth ++
      "): a check that runs other checks cannot recurse indefinitely".toList)]

def finish (plugins : Plugins) (b : Batch) : Outcome :=
  if b.chunks = [] then
    if b.missingCommands ≠ [] then
      ⟨[], some { b.response with
        payload := b.response.payload ++ [setResponseBad b.missingCommands
          (unknownCommandsMessage plugins.providersOf "Unknown command(s): ".toList
            b.missingList)] }⟩
    else ⟨[], some b.response⟩
  else dispatch plugins (plugins.order b.chunks) b.response

/-- `depth` is the number of queries this one is nested in. -/
def executeQuery (plugins : Plugins) (m : Manager) (depth : ℕ) (request : QueryRequest) :
    Outcome :=
  if depth + 1 > maxQueryDepth then ⟨[], some (tooDeep request)⟩
  else
    let subject := extractSubject m.cache request.header
    let command := request.header.command
    if command ≠ [] then
      match m.commands.get command with
      | some plugin =>
        if m.allows subject plugin command then
          -- the payloads go along as they came
          finish plugins { chunks := [⟨plugin, request⟩] }
        else ⟨[], some (emitDeniedPayload subject {} command)⟩
      | none => finish plugins { missingCommands := command, missingList := [command] }
    else
      finish plugins (request.payload.foldl (m.sortPayload request.header subject) {})

end Nscp.Service
