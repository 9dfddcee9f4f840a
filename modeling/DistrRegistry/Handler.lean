/-
The handlers of `internal/registry/manifest.go` as programs over their collaborators:
`handle` with `handleGet`, `handleHead` and `handlePut`, `handleTags`, `handleCatalog` and
`handleReferrers`.  Each follows the Go function statement by statement; `log` and Sentry
calls are left out, and `defer b.Close()` with them.
-/
import DistrRegistry.Call
import DistrRegistry.Json
import DistrRegistry.Path

namespace DistrRegistry

/-- `req.URL.Query().Get(key)`: the first value given for `key`, or `""`. -/
def queryGet (query : List (String × String)) (key : String) : String :=
  ((query.find? (·.1 == key)).map (·.2)).getD ""

/-- The value of a decimal numeral. -/
def decimalValue (ds : List Char) : Nat :=
  ds.foldl (fun n c => 10 * n + (c.toNat - '0'.toNat)) 0

/-- The last `width` hex digits of `n`, in lowercase (`strconv`'s `lowerhex`). -/
def lowerHex (width n : Nat) : String :=
  String.mk ((List.range width).reverse.map fun i => Nat.digitChar (n / 16 ^ i % 16))

/-- `strconv.IsPrint`: its own rule up to Latin-1, the library's tables above. -/
def isPrint (D : Deps) (r : Char) : Bool :=
  if r.toNat ≤ 0xFF then (0x20 ≤ r.toNat && r.toNat ≤ 0x7E) || (0xA1 ≤ r.toNat && r.toNat != 0xAD)
  else D.printTable r

/-- `appendEscapedRune` of `strconv.Quote`: the quote and the backslash escaped, printable runes
as they are, then the short escapes, `\x` below a space and for DEL, `\u` and `\U` above.  A Lean
string holds only valid runes, so the branches for `RuneError` and invalid runes never run. -/
def escapedRune (D : Deps) (r : Char) : String :=
  if r.toNat = 34 ∨ r.toNat = 92 then "\\" ++ r.toString
  else if isPrint D r then r.toString
  else if r.toNat = 7 then "\\a"
  else if r.toNat = 8 then "\\b"
  else if r.toNat = 12 then "\\f"
  else if r.toNat = 10 then "\\n"
  else if r.toNat = 13 then "\\r"
  else if r.toNat = 9 then "\\t"
  else if r.toNat = 11 then "\\v"
  else if r.toNat < 32 ∨ r.toNat = 127 then "\\x" ++ lowerHex 2 r.toNat
  else if r.toNat < 0x10000 then "\\u" ++ lowerHex 4 r.toNat
  else "\\U" ++ lowerHex 8 r.toNat

/-- `strconv.Quote`. -/
def quote (D : Deps) (s : String) : String :=
  "\"" ++ String.join (s.toList.map (escapedRune D)) ++ "\""

/-- The errors of `strconv`'s parsers: `ErrSyntax` (`invalid`) and `ErrRange`. -/
inductive NumError
  | invalid
  | range
deriving DecidableEq, Repr

/-- The text of a `strconv` error. -/
def NumError.text : NumError → String
  | .invalid => "invalid syntax"
  | .range => "value out of range"

/-- `strconv`'s sign: whether a text starts with `-`, and what follows a leading `-` or `+`. -/
def splitSign : List Char → Bool × List Char
  | '-' :: ds => (true, ds)
  | '+' :: ds => (false, ds)
  | ds => (false, ds)

/-- The loop of `strconv.ParseUint(s, 10, 64)` from the value `n` of the bytes before: a byte
that is not a digit is a syntax error, checked first; a value past `2^64 - 1` is a range
error, before the bytes after it are looked at. -/
def parseUint (n : Nat) : List Char → Except NumError Nat
  | [] => .ok n
  | c :: cs =>
    if !c.isDigit then .error .invalid
    else if 1844674407370955162 ≤ n then .error .range
    else if 18446744073709551615 < 10 * n + (c.toNat - '0'.toNat) then .error .range
    else parseUint (10 * n + (c.toNat - '0'.toNat)) cs

/-- `strconv.Atoi(s)` on a 64-bit platform: the `int` it returns and its error's text, which
quotes `s`.  A text of 1 to 18 bytes takes the fast path, which cannot overflow; any other goes
through `strconv.ParseInt(s, 10, 0)`, which returns the bound it passes on a range error. -/
def atoi (D : Deps) (s : String) : Int × Option String :=
  let (neg, digits) := splitSign s.toList
  let err := fun (e : NumError) => some ("strconv.Atoi: parsing " ++ quote D s ++ ": " ++ e.text)
  if 0 < s.utf8ByteSize ∧ s.utf8ByteSize < 19 then
    if digits.isEmpty || !digits.all Char.isDigit then (0, err .invalid)
    else ((if neg then -(decimalValue digits : Int) else decimalValue digits), none)
  else
    match (if digits.isEmpty then .error .invalid else parseUint 0 digits : Except NumError Nat) with
    | .error .invalid => (0, err .invalid)
    | .error .range =>
      if neg then (-9223372036854775808, err .range) else (9223372036854775807, err .range)
    | .ok un =>
      if !neg ∧ 9223372036854775808 ≤ un then (9223372036854775807, err .range)
      else if neg ∧ 9223372036854775808 < un then (-9223372036854775808, err .range)
      else ((if neg then -(un : Int) else un), none)

/-- The JSON of a `[]string`; a nil slice is `null`. -/
def stringsJson : Option (List String) → Json
  | none => .null
  | some xs => .array (xs.map .string)

/-- The `regError` `handle`, `handleTags` and `handleReferrers` answer an authorizer's
error with. -/
def authzError (e : Err) : RegError :=
  if e.is .accessDenied then regErrDenied
  else if e.is .invalidArtifactName then regErrNameInvalid
  else regErrInternal e

/-- The `regError` `handleGet` and `handleHead` answer the manifest store's `Get` error with. -/
def manifestGetError (e : Err) : RegError :=
  if e.is .nameUnknown then regErrNameUnknown
  else if e.is .manifestUnknown then regErrManifestUnknown
  else regErrInternal e

/-- The `regError` `handlePut` answers a failed transaction with. -/
def putTxError (e : Err) : RegError :=
  if e.is .quotaExceeded then regErrDeniedQuotaExceeded else regErrInternal e

section

variable {D : Deps}

/-- `AuthorizeReference(ctx, repo, target, action)`; on an error its `regError`, else `next`. -/
def authorizedReference (repo target : String) (action : Action)
    (next : Handler D (Option RegError)) : Handler D (Option RegError) := do
  match ← authorizeReference repo target action with
  | some e => pure (some (authzError e))
  | none => next

/-- `handleGet`. -/
def handleGet (req : Request D) (repo target : String) : Handler D (Option RegError) := do
  match ← manifestGet repo target with
  | .error e => pure (some (manifestGetError e))
  | .ok m =>
    match ← blobGet repo m.blob.digest true with
    | .error e =>
      match e.asRedirect with
      | some (location, code) => do
        let _ ← auditPull repo target
        redirect req.method req.path location code
        pure none
      | none => pure (some regErrManifestUnknown)
    | .ok (.error e) => pure (some (regErrInternal e))
    | .ok (.ok buf) => do
      setHeader "Docker-Content-Digest" m.blob.digest.toString
      setHeader "Content-Type" m.contentType
      setHeader "Content-Length" (toString (D.len buf))
      writeHeader 200
      match ← write buf with
      | some e => pure (some (regErrInternal e))
      | none => do
        let _ ← auditPull repo target
        pure none

/-- `handleHead`. -/
def handleHead (caps : BlobCaps) (repo target : String) : Handler D (Option RegError) := do
  match ← manifestGet repo target with
  | .error e => pure (some (manifestGetError e))
  | .ok m =>
    if !caps.stat then pure (some (regErrInternal (.other "cannot stat blob")))
    else
      match ← blobStat repo m.blob.digest with
      | .error _ => pure (some regErrManifestUnknown)
      | .ok l => do
        let _ ← auditPull repo target
        setHeader "Docker-Content-Digest" m.blob.digest.toString
        setHeader "Content-Type" m.contentType
        setHeader "Content-Length" (toString l)
        writeHeader 200
        pure none

/-- The loop of `handlePut`'s index branch over the index's descriptors: each distributable
image or index must already be recorded in `repo`, and is appended to `blobs`. -/
def indexDependencies (repo : String) :
    List Blob → List Descriptor → Handler D (Except RegError (List Blob))
  | blobs, [] => pure (.ok blobs)
  | blobs, desc :: rest =>
    if !MediaType.isDistributable desc.mediaType then indexDependencies repo blobs rest
    else if MediaType.isIndex desc.mediaType || MediaType.isImage desc.mediaType then do
      match ← manifestGet repo desc.digest.toString with
      | .error _ => pure (.error ⟨404, "MANIFEST_UNKNOWN",
          "Sub-manifest \"" ++ desc.digest.toString ++ "\" not found"⟩)
      | .ok _ => indexDependencies repo (blobs ++ [⟨desc.digest, desc.size⟩]) rest
    else indexDependencies repo blobs rest

/-- The blobs `handlePut`'s image branch collects: the config, the subject if any, and every
distributable layer. -/
def imageDependencies (m : ImageManifest) : List Blob :=
  [⟨m.config.digest, m.config.size⟩] ++ (m.subject.map fun s => ⟨s.digest, s.size⟩).toList ++
    (m.layers.filter fun d => MediaType.isDistributable d.mediaType).map
      fun d => ⟨d.digest, d.size⟩

/-- The dependencies `handlePut` collects for the content type `contentType`. -/
def putDependencies (repo contentType : String) (buf : D.Body) :
    Handler D (Except RegError (List Blob)) :=
  if MediaType.isIndex contentType then
    match D.parseIndexManifest buf with
    | .error e => pure (.error (regErrManifestInvalid e))
    | .ok im => indexDependencies repo [] im.manifests
  else if MediaType.isImage contentType then
    match D.parseManifest buf with
    | .error e => pure (.error (regErrManifestInvalid e))
    | .ok m => pure (.ok (imageDependencies m))
  else pure (.ok [])

/-- The record `handlePut` stores for a body sent with a content type. -/
def putManifest (contentType : String) (buf : D.Body) : Manifest :=
  ⟨contentType, ⟨D.sha256 buf, D.len buf⟩⟩

/-- The two `ManifestHandler.Put` calls of `handlePut`'s transaction: under the digest, then
under the target. -/
def putRequests (repo target : String) (mf : Manifest) (blobs : List Blob) :
    List PutRequest :=
  [⟨repo, mf.blob.digest.toString, mf, blobs⟩, ⟨repo, target, mf, blobs⟩]

/-- `handlePut` after `io.Copy(buf, req.Body)`: the checks of the body `buf`, the blob `Put`
and the transaction.  `v1.SHA256` over a `bytes.Reader` never fails, so its error branch is
left out. -/
def handlePutBuffer (caps : BlobCaps) (req : Request D) (repo target : String) (buf : D.Body) :
    Handler D (Option RegError) := do
  let mf := putManifest req.contentType buf
  match ← putDependencies repo mf.contentType buf with
  | .error e => pure (some e)
  | .ok blobs =>
    match checkIncompatibleManifest D buf with
    | some e => pure (some e)
    | none =>
      if !caps.put then
        pure (some (regErrInternal (.other "blob handler is not a BlobPutHandler")))
      else
        match ← blobPut repo mf.blob.digest mf.contentType buf with
        | some e => pure (some (regErrInternal e))
        | none =>
          match ← runTx (putRequests repo target mf blobs) with
          | some e => pure (some (putTxError e))
          | none => do
            setHeader "Docker-Content-Digest" mf.blob.digest.toString
            setHeader "OCI-Subject" mf.blob.digest.toString
            setHeader "Location" (joinPath req.path mf.blob.digest.toString)
            writeHeader 201
            pure none

/-- `handlePut`: read the request body, then `handlePutBuffer`. -/
def handlePut (caps : BlobCaps) (req : Request D) (repo target : String) :
    Handler D (Option RegError) := do
  match ← readBody with
  | .error e => pure (some (regErrInternal e))
  | .ok buf => handlePutBuffer caps req repo target buf

/-- `handle`: the path parse, then per method the authorization and its handler. -/
def handle (caps : BlobCaps) (req : Request D) : Handler D (Option RegError) :=
  match repoTarget req.path with
  | none => goPanic "index out of range"
  | some (repo, target) =>
    if req.method = "GET" then authorizedReference repo target .read (handleGet req repo target)
    else if req.method = "HEAD" then
      authorizedReference repo target .stat (handleHead caps repo target)
    else if req.method = "PUT" then
      authorizedReference repo target .write (handlePut caps req repo target)
    else pure (some regErrMethodUnknown)

/-- Write a JSON answer with status 200. -/
def writeJson (j : Json) : Handler D (Option RegError) := do
  let msg := D.marshal j
  setHeader "Content-Length" (toString (D.len msg))
  writeHeader 200
  match ← write msg with
  | some e => pure (some (regErrInternal e))
  | none => pure none

/-- `handleTags`.  `json.Marshal` of strings never fails, so its error branch is left out. -/
def handleTags (req : Request D) : Handler D (Option RegError) :=
  match repoTarget req.path with
  | none => goPanic "slice bounds out of range"
  | some (repo, _) =>
    if req.method = "GET" then do
      match ← authorize repo .read with
      | some e => pure (some (authzError e))
      | none =>
        let last := queryGet req.query "last"
        let ns := queryGet req.query "n"
        let parsed := if ns = "" then ((10000 : Int), none) else atoi D ns
        match parsed with
        | (_, some msg) => pure (some ⟨400, "BAD_REQUEST", "parsing n: " ++ msg⟩)
        | (n, none) =>
          match ← manifestListTags repo n last with
          | .error e =>
            pure (some (if e.is .nameUnknown then regErrNameUnknown else regErrInternal e))
          | .ok references =>
            writeJson (.object [("name", .string repo), ("tags", stringsJson references)])
    else pure (some regErrMethodUnknown)

/-- `handleCatalog`.  A malformed `n` is ignored: `n, _ = strconv.Atoi(nStr)`. -/
def handleCatalog (req : Request D) : Handler D (Option RegError) :=
  let nStr := queryGet req.query "n"
  let n : Int := if nStr = "" then 10000 else (atoi D nStr).1
  if req.method = "GET" then do
    match ← manifestList n with
    | .error e => pure (some (regErrInternal e))
    | .ok repos => writeJson (.object [("repositories", stringsJson repos)])
  else pure (some regErrMethodUnknown)

/-- The loop of `handleReferrers` over the digests of the repository: each manifest whose
body's `subject` is `target` is appended to `found`, with its record's content type, the
body's length, its digest and the body's `config.mediaType`. -/
def referrersLoop (repo target : String) :
    List Descriptor → List Hash → Handler D (Except RegError (List Descriptor))
  | found, [] => pure (.ok found)
  | found, reference :: rest => do
    match ← manifestGet repo reference.toString with
    | .error e => pure (.error (regErrInternal e))
    | .ok manifest =>
      match ← blobGet repo manifest.blob.digest false with
      | .error e => pure (.error ⟨404, "BAD_REQUEST", e.text⟩)
      | .ok (.error e) => pure (.error (regErrInternal e))
      | .ok (.ok buf) =>
        match unmarshalSubject (D.unmarshal buf) with
        | none => referrersLoop repo target found rest
        | some subject =>
          if subject.toString ≠ target then referrersLoop repo target found rest
          else referrersLoop repo target (found ++ [⟨manifest.contentType, D.len buf,
            reference, unmarshalArtifactType (D.unmarshal buf)⟩]) rest

/-- The index `handleReferrers` answers with. -/
def referrersIndex (manifests : List Descriptor) : IndexManifest :=
  ⟨2, MediaType.ociImageIndex, manifests⟩

/-- `handleReferrers`.  `json.Marshal` of an index never fails, so its error branch is left
out. -/
def handleReferrers (req : Request D) : Handler D (Option RegError) :=
  if req.method ≠ "GET" then pure (some regErrMethodUnknown)
  else
    match repoTarget req.path with
    | none => goPanic "index out of range"
    | some (repo, target) =>
      authorizedReference repo target .read do
        match newHash target with
        | none => pure (some ⟨400, "UNSUPPORTED", "Target must be a valid digest"⟩)
        | some _ =>
          match ← manifestListDigests repo with
          | .error e =>
            pure (some (if e.is .nameUnknown then regErrNameUnknown else regErrInternal e))
          | .ok digests =>
            match ← referrersLoop repo target [] digests with
            | .error e => pure (some e)
            | .ok found => do
              let msg := D.marshal (referrersIndex found).toJson
              setHeader "Content-Length" (toString (D.len msg))
              setHeader "Content-Type" MediaType.ociImageIndex
              writeHeader 200
              match ← write msg with
              | some e => pure (some (regErrInternal e))
              | none => pure none

end

end DistrRegistry
