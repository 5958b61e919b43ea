import Librairii.JsonValues
import Librairii.QueryRequests
import Librairii.SavedQueryCodec

/-!
# Native navigation state and its bytes

Navigation keeps bounded frames, each a place with a query request and a
selection, and the position among them. A request is stored verbatim: its value
tree is written in key order and must be restored before it is accepted. The
restoring reader takes navigation and branches itself, leaves every other field
to the query reader, and runs the runtime normalization on a copy only.
-/

namespace Librairii.NavigationCodec

open CheckedResults JsonText JsonValues WireParser SavedQuery SavedQueryCodec QueryRequests

/-- A request text is refused. -/
inductive InvalidHash where
  | refused
  deriving DecidableEq

/-- A navigation state is refused. -/
inductive InvalidNavigation where
  | refused
  deriving DecidableEq

/-- The bound on the frames of a state. -/
def maxHistory : ℕ := 100

def maxStateBytes : ℕ := 8*1024*1024

/-- How stories are shown. -/
inductive Presentation where
  | list
  | smallCovers
  | largeCovers
  deriving DecidableEq

/-- The sixteen bytes of a library identity. -/
structure LibraryId where
  bytes : List UInt8
  length_bytes : bytes.length=16

/-- Lower-case hexadecimal digits of bytes. -/
def hexText (bytes : List UInt8) : List Char :=
  bytes.flatMap fun b => [Nat.digitChar (b.toNat/16),Nat.digitChar (b.toNat%16)]

def LibraryId.text (library : LibraryId) : String :=
  String.ofList (hexText (library.bytes.take 4)++
    '-' :: (hexText ((library.bytes.drop 4).take 2)++
    '-' :: (hexText ((library.bytes.drop 6).take 2)++
    '-' :: (hexText ((library.bytes.drop 8).take 2)++
    '-' :: hexText (library.bytes.drop 10)))))

/-- A positive identity of a collection or a shelf. -/
abbrev GroupId := {n : I64 // 0<n.val}

def newGroupId (value : I64) : Except InvalidNavigation GroupId :=
  if h : 0<value.val then .ok ⟨value,h⟩ else .error .refused

/-- Where a request applies. -/
inductive Scope where
  | library
  | collection (id : GroupId)
  | shelf (id : GroupId) (manualOrder : Bool)
  | custom

/-- A place with its request. -/
structure Location where
  scope : Scope
  request : QueryRequest

/-- A place with its selection. -/
structure Frame where
  location : Location
  selection : List I64

/-- The navigation state of one library. -/
structure Navigation where
  library : LibraryId
  generation : ℕ
  revision : ℕ
  identity : ℕ
  frames : List Frame
  position : ℕ
  presentation : Presentation

/-- A frame as it is stored. -/
structure WireFrame where
  kind : String
  id : Option I64
  manualOrder : Option Bool
  request : Json
  selection : List I64

/-- A state as it is stored. -/
structure WireState where
  version : I64
  libraryId : String
  frames : List WireFrame
  position : ℕ
  presentation : Presentation

/-- The tables, the normalizers and the serializer navigation relies on. -/
structure NavigationEnv extends CodecEnv,RuntimeEnv where
  readValue : List UInt8 → Option Json
  readState : List UInt8 → Option WireState

def hash {ε α : Type} (x : Except ε α) : Except InvalidHash α :=
  x.mapError fun _ => .refused

def hashBudget (remaining : ℕ) : Except InvalidHash ℕ :=
  if remaining=0 then .error .refused else .ok (remaining-1)

/-- Check the navigation of a node and read its kept members as a query. -/
def finishNode (request : QueryRequest) (children : List Query) (kept : List (String×Wire))
    (remaining : ℕ) : Except InvalidHash (QueryRequest×ℕ) :=
  if request.page.val<0 ∨ request.pageSize.val<0 ∨ 100<request.pageSize.val ∨
      request.sort ∉ ["","name_asc","imported_desc"] then .error .refused
  else do
    let .node own _ ← hash (query (.object kept) false)
    .ok ({ request with criteria := .node own children },remaining)

mutual

def node : Wire → ℕ → Except InvalidHash (QueryRequest×ℕ)
  | .null,remaining => do
    let remaining ← hashBudget remaining
    finishNode {} [] [] remaining
  | .object fields,remaining => do
    let remaining ← hashBudget remaining
    nodeFields {} [] [] fields remaining
  | _,_ => .error .refused

/-- Take the navigation and the branches of a node and keep its other members. -/
def nodeFields (request : QueryRequest) (children : List Query) (kept : List (String×Wire)) :
    List (String×Wire) → ℕ → Except InvalidHash (QueryRequest×ℕ)
  | [],remaining => finishNode request children kept remaining
  | (key,wire)::fields,remaining => do
    let folded ← hash (field key)
    if folded="PAGE" then do
      let page ← hash (scalarInteger wire request.page)
      nodeFields { request with page := page } children kept fields remaining
    else if folded="PAGESIZE" then do
      let pageSize ← hash (scalarInteger wire request.pageSize)
      nodeFields { request with pageSize := pageSize } children kept fields remaining
    else if folded="SORT" then do
      let sort ← hash (scalarString wire request.sort)
      nodeFields { request with sort := sort } children kept fields remaining
    else if folded="ANYOF" then do
      let (children,remaining) ← nodeArray wire remaining
      nodeFields request children kept fields remaining
    else nodeFields request children (kept++[(key,wire)]) fields remaining

/-- Read the branches of a node; null is no branch. -/
def nodeArray : Wire → ℕ → Except InvalidHash (List Query×ℕ)
  | .null,remaining => .ok ([],remaining)
  | .array values,remaining => nodeElements values remaining
  | _,_ => .error .refused

/-- Read the branches one after the other, without their navigation. -/
def nodeElements : List Wire → ℕ → Except InvalidHash (List Query×ℕ)
  | [],remaining => .ok ([],remaining)
  | wire::wires,remaining => do
    let (branch,remaining) ← node wire remaining
    let (branches,remaining) ← nodeElements wires remaining
    .ok (branch.criteria::branches,remaining)

end

/-- A selection of positive identities, each once. -/
def validSelection : List I64 → List I64 → Bool
  | _,[] => true
  | seen,id::ids => 0 < id.val && id ∉ seen && validSelection (id::seen) ids

def Presentation.text : Presentation → String
  | .list => "list"
  | .smallCovers => "small_covers"
  | .largeCovers => "large_covers"

/-- A stored identity; none is null. -/
def idJson : Option I64 → Json
  | some id => .number id.val
  | none => .null

def manualOrderJson : Option Bool → Json
  | some manualOrder => .bool manualOrder
  | none => .null

def frameJson (frame : WireFrame) : Json :=
  .object [("kind",.string frame.kind),("id",idJson frame.id),
    ("manualOrder",manualOrderJson frame.manualOrder),("request",frame.request),
    ("selection",.array (frame.selection.map fun id => .number id.val))]

def stateJson (state : WireState) : Json :=
  .object [("version",.number state.version.val),("libraryId",.string state.libraryId),
    ("frames",.array (state.frames.map frameJson)),("position",.number state.position),
    ("presentation",.string state.presentation.text)]

def stateVersion : I64 := ⟨1,one_bounds⟩

/-- The stored kind, identity and order of a scope. -/
def scopeFields : Scope → String×Option I64×Option Bool
  | .library => ("library",none,none)
  | .custom => ("custom",none,none)
  | .collection id => ("collection",some id.val,none)
  | .shelf id manualOrder => ("shelf",some id.val,some manualOrder)

def scopeOf (kind : String) : Option I64 → Option Bool → Except InvalidNavigation Scope
  | none,none =>
    if kind="library" then .ok .library
    else if kind="custom" then .ok .custom
    else .error .refused
  | some id,none =>
    if kind="collection" then (newGroupId id).map .collection else .error .refused
  | some id,some manualOrder =>
    if kind="shelf" then (newGroupId id).map fun id => .shelf id manualOrder
    else .error .refused
  | none,some _ => .error .refused

section Codec

variable (env : NavigationEnv)

def restoreRequest (bytes : List UInt8) : Except InvalidHash QueryRequest :=
  if maxBytes<bytes.length then .error .refused
  else do
    let wire ← hash (parse env.toWireEnv bytes)
    let (request,_) ← node wire maxNodes
    let _ ← hash (normalizeRequest env.toRuntimeEnv request)
    .ok request

def requestValue (request : QueryRequest) : Option Json :=
  match toValue (queryJson request.criteria) with
  | .object fields => some (.object
    (insertKey "sort" (.string request.sort)
      (insertKey "pageSize" (.number request.pageSize.val)
        (insertKey "page" (.number request.page.val) fields))))
  | _ => none

def valueBytes (value : Json) : Option (List UInt8) :=
  (env.serialize value).map fun text => bytes text.toList

def requestBytes (request : QueryRequest) : Except InvalidHash (List UInt8) :=
  match (requestValue request).bind (valueBytes env) with
  | none => .error .refused
  | some bytes => do
    let _ ← restoreRequest env bytes
    .ok bytes

def wireFrame (frame : Frame) : Except InvalidNavigation WireFrame :=
  if validSelection [] frame.selection=false then .error .refused
  else
    let (kind,id,manualOrder) := scopeFields frame.location.scope
    match requestBytes env frame.location.request with
    | .error _ => .error .refused
    | .ok bytes =>
      match env.readValue bytes with
      | none => .error .refused
      | some request =>
        .ok ⟨kind,id,manualOrder,request,frame.selection⟩

/-- The bytes of a navigation state within its bounds. -/
def encode (nav : Navigation) : Except InvalidNavigation (List UInt8) :=
  if nav.frames.length=0 ∨ maxHistory<nav.frames.length ∨ nav.frames.length≤nav.position then
    .error .refused
  else do
    let frames ← nav.frames.mapM (wireFrame env)
    match valueBytes env (stateJson
        ⟨stateVersion,nav.library.text,frames,nav.position,nav.presentation⟩) with
    | none => .error .refused
    | some bytes => if maxStateBytes<bytes.length then .error .refused else .ok bytes

def restoreFrame (frame : WireFrame) : Except InvalidNavigation Frame :=
  if validSelection [] frame.selection=false then .error .refused
  else do
    let scope ← scopeOf frame.kind frame.id frame.manualOrder
    match valueBytes env frame.request with
    | none => .error .refused
    | some bytes =>
      match restoreRequest env bytes with
      | .error _ => .error .refused
      | .ok request => .ok ⟨⟨scope,request⟩,frame.selection⟩

/-- Read a navigation state of the expected library; its identity is fresh. -/
def decode (bytes : List UInt8) (expected : LibraryId) (generation fresh : ℕ) :
    Except InvalidNavigation Navigation :=
  if maxStateBytes<bytes.length ∨ generation=0 then .error .refused
  else match env.readState bytes with
  | none => .error .refused
  | some wire =>
    if wire.version≠stateVersion ∨ wire.libraryId≠expected.text ∨ wire.frames.length=0 ∨
        maxHistory<wire.frames.length ∨ wire.frames.length≤wire.position then .error .refused
    else do
      let frames ← wire.frames.mapM (restoreFrame env)
      .ok ⟨expected,generation,1,fresh,frames,wire.position,wire.presentation⟩

end Codec

end Librairii.NavigationCodec
