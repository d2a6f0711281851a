import BlossomRs.Lib.Json

/-!
# The wire protocol of streams

Each stream carries one request and its response: a line of JSON, followed by a body where there is
one.  An empty text stands for an absent field.
-/

namespace BlossomRs.Transport

inductive Op where
  | get
  | head
  | upload
  | delete
  | list
  | lockCreate
  | lockDelete
  | lockList
  | lockVerify
deriving DecidableEq, Repr

structure Request where
  op : Op
  sha256 : String
  pubkey : String
  auth : String
  contentType : String
  bodyLen : UInt64
  repoId : String
  lockId : String
  lockPath : String
  force : Bool
  cursor : String
  limit : UInt32
  lfsPath : String
  lfsRepo : String
  lfsBase : String
  lfsManifest : Bool
deriving DecidableEq, Repr

/-- `Request::default`, for an operation. -/
def Request.of (op : Op) : Request where
  op := op
  sha256 := ""
  pubkey := ""
  auth := ""
  contentType := ""
  bodyLen := 0
  repoId := ""
  lockId := ""
  lockPath := ""
  force := false
  cursor := ""
  limit := 0
  lfsPath := ""
  lfsRepo := ""
  lfsBase := ""
  lfsManifest := false

inductive Status where
  | ok
  | notFound
  | unauthorized
  | forbidden
  | conflict
  | error
deriving DecidableEq, Repr

structure Response where
  status : Status
  bodyLen : Nat
  contentType : String
  error : String
  descriptor : Option Json

/-- A response that carries only a status and a text. -/
def Response.failure (status : Status) (message : String) : Response where
  status := status
  bodyLen := 0
  contentType := ""
  error := message
  descriptor := none

end BlossomRs.Transport
