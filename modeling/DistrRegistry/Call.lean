/-
The collaborators of the `manifests` handler and what each call answers: the authorizer, the
request body and the response writer, the manifest store (`manifest.ManifestHandler` and
`db.RunTx`), the blob store (`blob.BlobHandler` with its optional `Stat` and `Put`), and the
auditor.  A handler is a `Prog` over these calls; a Go panic is a call nothing answers.
-/
import DistrRegistry.Basic
import DistrRegistry.Prog

namespace DistrRegistry

/-- `authz.Action`. -/
inductive Action
  | read
  | stat
  | write
deriving DecidableEq, Repr

/-- The arguments of one `ManifestHandler.Put(ctx, repo, reference, manifest, blobs)`. -/
structure PutRequest where
  repo : String
  reference : String
  manifest : Manifest
  blobs : List Blob
deriving DecidableEq, Repr

/-- The parts of an `http.Request` the handlers read.  `body` is what reading `req.Body` to
its end yields: its bytes, or the error the stream fails with. -/
structure Request (D : Deps) where
  method : String
  path : String
  query : List (String × String)
  contentType : String
  body : Except Err D.Body

/-- Which optional interfaces the configured `blob.BlobHandler` implements. -/
structure BlobCaps where
  stat : Bool
  put : Bool
deriving DecidableEq, Repr

/-- A call a handler makes. `runTx puts` is `db.RunTx` with a function that makes the
`ManifestHandler.Put` calls `puts` in order and returns their errors combined; `redirect` is
`http.Redirect`, with the method and the URL path of the request it reads. -/
inductive Call (D : Deps)
  | authorize (repo : String) (action : Action)
  | authorizeReference (repo reference : String) (action : Action)
  | readBody
  | manifestGet (repo reference : String)
  | manifestListTags (repo : String) (n : Int) (last : String)
  | manifestListDigests (repo : String)
  | manifestList (n : Int)
  | runTx (puts : List PutRequest)
  | blobGet (repo : String) (digest : Hash) (allowRedirect : Bool)
  | blobStat (repo : String) (digest : Hash)
  | blobPut (repo : String) (digest : Hash) (contentType : String) (body : D.Body)
  | auditPull (repo target : String)
  | setHeader (key value : String)
  | writeHeader (status : Nat)
  | write (body : D.Body)
  | redirect (method path location : String) (code : Nat)
  | goPanic (message : String)

/-- What a call answers.  `blobGet` answers with a reader, that is with what reading it to
the end yields; a list `ManifestHandler` returns may be nil (`none`); a panic returns nothing. -/
@[reducible] def Call.Ret {D : Deps} : Call D → Type
  | .authorize .. | .authorizeReference .. => Option Err
  | .readBody => Except Err D.Body
  | .manifestGet .. => Except Err Manifest
  | .manifestListTags .. | .manifestList _ => Except Err (Option (List String))
  | .manifestListDigests _ => Except Err (List Hash)
  | .runTx _ => Option Err
  | .blobGet .. => Except Err (Except Err D.Body)
  | .blobStat .. => Except Err Int
  | .blobPut .. | .auditPull .. => Option Err
  | .setHeader .. | .writeHeader _ | .redirect .. => Unit
  | .write _ => Option Err
  | .goPanic _ => Empty

/-- A handler of the registry: a program over `Call D`. -/
abbrev Handler (D : Deps) (α : Type) := Prog (@Call.Ret D) α

/-- A call made by a handler, with its answer. -/
abbrev Ev (D : Deps) := Prog.Event (@Call.Ret D)

section

variable {D : Deps}

/-! One program per call, answering with the call's answer. -/

def authorize (repo : String) (action : Action) : Handler D (Option Err) :=
  .call (.authorize repo action) .pure

def authorizeReference (repo reference : String) (action : Action) :
    Handler D (Option Err) :=
  .call (.authorizeReference repo reference action) .pure

def readBody : Handler D (Except Err D.Body) := .call .readBody .pure

def manifestGet (repo reference : String) : Handler D (Except Err Manifest) :=
  .call (.manifestGet repo reference) .pure

def manifestListTags (repo : String) (n : Int) (last : String) :
    Handler D (Except Err (Option (List String))) :=
  .call (.manifestListTags repo n last) .pure

def manifestListDigests (repo : String) : Handler D (Except Err (List Hash)) :=
  .call (.manifestListDigests repo) .pure

def manifestList (n : Int) : Handler D (Except Err (Option (List String))) :=
  .call (.manifestList n) .pure

def runTx (puts : List PutRequest) : Handler D (Option Err) := .call (.runTx puts) .pure

def blobGet (repo : String) (digest : Hash) (allowRedirect : Bool) :
    Handler D (Except Err (Except Err D.Body)) :=
  .call (.blobGet repo digest allowRedirect) .pure

def blobStat (repo : String) (digest : Hash) : Handler D (Except Err Int) :=
  .call (.blobStat repo digest) .pure

def blobPut (repo : String) (digest : Hash) (contentType : String) (body : D.Body) :
    Handler D (Option Err) :=
  .call (.blobPut repo digest contentType body) .pure

def auditPull (repo target : String) : Handler D (Option Err) :=
  .call (.auditPull repo target) .pure

def setHeader (key value : String) : Handler D Unit := .call (.setHeader key value) .pure

def writeHeader (status : Nat) : Handler D Unit := .call (.writeHeader status) .pure

def write (body : D.Body) : Handler D (Option Err) := .call (.write body) .pure

/-- `http.Redirect(resp, req, location, code)`, given the method and the URL path of `req` it
reads. -/
def redirect (method path location : String) (code : Nat) : Handler D Unit :=
  .call (.redirect method path location code) .pure

/-- A runtime panic: the request ends without an answer. -/
def goPanic {α : Type} (message : String) : Handler D α := .call (.goPanic message) nofun

end

end DistrRegistry
