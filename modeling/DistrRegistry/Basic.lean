/-
The values the manifest handler of `internal/registry/manifest.go` works with: digests
(go-containerregistry's `v1.Hash`), the media types it tests, descriptors and manifests, the
record the manifest store keeps for a reference, the errors its collaborators answer with, and
the `regError` it returns.  The libraries it reads bodies with (`v1.SHA256`, `encoding/json`,
`v1.ParseIndexManifest`, `v1.ParseManifest`) form the parameter `Deps`, so that every result
below holds for every behaviour of them.
-/
import Mathlib.Data.List.Basic
import Mathlib.Data.String.Basic

namespace DistrRegistry

/-- `strings.Split(s, sep)` for a separator of one character. -/
def goSplit (s : String) (sep : Char) : List String :=
  (s.toList.splitOn sep).map String.mk

theorem goSplit_ne_nil (s : String) (sep : Char) : goSplit s sep ≠ [] := by
  simpa [goSplit, List.splitOn] using List.splitOnP_ne_nil _ s.toList

theorem splitOn_append_cons {xs ys : List Char} {sep : Char} :
    (xs ++ sep :: ys).splitOn sep = xs.splitOn sep ++ ys.splitOn sep := by
  induction xs with
  | nil => simp [List.splitOn]
  | cons x xs ih =>
    simp only [List.splitOn] at ih ⊢
    rw [List.cons_append, List.splitOnP_cons, List.splitOnP_cons, ih]
    split
    · rfl
    · obtain ⟨w, ws, hw⟩ := List.exists_cons_of_ne_nil (List.splitOnP_ne_nil (· == sep) xs)
      simp [hw]

/-- Splitting at a separator splits the two sides apart. -/
theorem goSplit_append {a b : String} {sep : Char} :
    goSplit (a ++ String.singleton sep ++ b) sep = goSplit a sep ++ goSplit b sep := by
  have h : (a ++ String.singleton sep ++ b).toList = a.toList ++ sep :: b.toList := by
    simp [String.singleton]
  simp [goSplit, h, splitOn_append_cons]

theorem goSplit_of_not_mem {s : String} {sep : Char} (hs : sep ∉ s.toList) :
    goSplit s sep = [s] := by
  simp only [goSplit, List.splitOn]
  rw [List.splitOnP_eq_single _ _
    (fun x hx hxs => hs (by simpa using (beq_iff_eq.mp hxs) ▸ hx))]
  simp

theorem goSplit_eq_pair {s a b : String} {sep : Char} (h : goSplit s sep = [a, b]) :
    s = a ++ String.singleton sep ++ b := by
  have hs := List.intercalate_splitOn s.toList sep
  obtain ⟨l1, l2, hl, rfl, rfl⟩ :
      ∃ l1 l2, s.toList.splitOn sep = [l1, l2] ∧ a = String.mk l1 ∧ b = String.mk l2 := by
    simp only [goSplit, List.map_eq_cons_iff, List.map_eq_nil_iff] at h
    obtain ⟨l1, t, ht, rfl, l2, t2, rfl, rfl, rfl⟩ := h
    exact ⟨l1, l2, ht, rfl, rfl⟩
  rw [hl] at hs
  apply String.ext
  simp only [String.data_append, String.singleton]
  simpa [List.intercalate] using hs.symm

/-- No segment of a split holds the separator. -/
theorem sep_not_mem_of_mem_splitOn {xs l : List Char} {sep : Char} (h : l ∈ xs.splitOn sep) :
    sep ∉ l := by
  induction xs generalizing l with
  | nil =>
    rw [List.splitOn_nil, List.mem_singleton] at h
    subst h
    exact List.not_mem_nil _
  | cons x xs ih =>
    simp only [List.splitOn] at h ih
    rw [List.splitOnP_cons] at h
    split_ifs at h with hx
    · rcases List.mem_cons.mp h with rfl | h
      · exact List.not_mem_nil _
      · exact ih h
    · obtain ⟨r, rs, hr⟩ := List.exists_cons_of_ne_nil (List.splitOnP_ne_nil (· == sep) xs)
      rw [hr, List.modifyHead_cons] at h
      rcases List.mem_cons.mp h with rfl | h
      · rintro (_ | ⟨_, hm⟩)
        · exact hx (beq_self_eq_true _)
        · exact ih (hr ▸ List.mem_cons_self _ _) hm
      · exact ih (hr ▸ List.mem_cons_of_mem _ h)

theorem sep_not_mem_of_mem_goSplit {s t : String} {sep : Char} (h : t ∈ goSplit s sep) :
    sep ∉ t.toList := by
  obtain ⟨l, hl, rfl⟩ := List.mem_map.mp h
  exact sep_not_mem_of_mem_splitOn hl

/-- `v1.Hash`: an algorithm and the hex digits of a digest. -/
structure Hash where
  algorithm : String
  hex : String
deriving DecidableEq, Repr

namespace Hash

/-- `Hash.String()`.  The zero `Hash` prints as `":"`. -/
def toString (h : Hash) : String := h.algorithm ++ ":" ++ h.hex

/-- The digits `strings.TrimLeft(hex, "0123456789abcdef")` removes. -/
def isHexDigit (c : Char) : Bool := ('0' ≤ c && c ≤ '9') || ('a' ≤ c && c ≤ 'f')

/-- The hashes `v1.NewHash` accepts: `sha256`, the only algorithm `v1.Hasher` knows, with
twice its 32 bytes in lowercase hex digits. -/
def Valid (h : Hash) : Prop :=
  h.algorithm = "sha256" ∧ h.hex.length = 64 ∧ h.hex.toList.all isHexDigit = true

instance (h : Hash) : Decidable h.Valid := inferInstanceAs (Decidable (_ ∧ _))

end Hash

/-- `v1.NewHash(s)`: exactly two `':'`-separated parts, a hex part of hex digits only, the
`sha256` algorithm, and 64 digits. -/
def newHash (s : String) : Option Hash :=
  match goSplit s ':' with
  | [algorithm, hex] =>
    if hex.toList.all Hash.isHexDigit && algorithm == "sha256" && hex.length == 64 then
      some ⟨algorithm, hex⟩
    else none
  | _ => none

/-- `v1.NewHash` and `Hash.String()` are inverse: a string parses exactly when it prints a
valid hash. -/
theorem newHash_eq_some_iff {s : String} {h : Hash} :
    newHash s = some h ↔ h.Valid ∧ h.toString = s := by
  constructor
  · intro hs
    unfold newHash at hs
    split at hs
    · rename_i alg hex hsplit
      split at hs
      · cases hs
        rename_i hc
        simp only [Bool.and_eq_true, beq_iff_eq] at hc
        exact ⟨⟨hc.1.2, hc.2, hc.1.1⟩, (goSplit_eq_pair hsplit).symm⟩
      · cases hs
    · cases hs
  · rintro ⟨⟨halg, hlen, hhex⟩, rfl⟩
    have hnot : ':' ∉ h.hex.toList := fun hm => by
      have := List.all_eq_true.mp hhex ':' hm
      revert this; decide
    have hsplit : goSplit h.toString ':' = [h.algorithm, h.hex] := by
      rw [Hash.toString, show ":" = String.singleton ':' from rfl, goSplit_append,
        goSplit_of_not_mem (by rw [halg]; decide), goSplit_of_not_mem hnot]
      rfl
    simp only [newHash, hsplit]
    rw [if_pos (by rw [hhex, halg, hlen]; rfl)]

theorem newHash_toString {h : Hash} (hv : h.Valid) : newHash h.toString = some h :=
  newHash_eq_some_iff.mpr ⟨hv, rfl⟩

/-- The `sha256` hash whose 64 hex digits are all `c`. -/
def Hash.ofDigit (c : Char) : Hash := ⟨"sha256", String.mk (List.replicate 64 c)⟩

theorem Hash.ofDigit_valid {c : Char} (hc : Hash.isHexDigit c = true) :
    (Hash.ofDigit c).Valid :=
  ⟨rfl, by simp [ofDigit, String.length], by simp [ofDigit, hc]⟩

/-! go-containerregistry's `types.MediaType` constants and predicates the handler uses. -/

namespace MediaType

def ociImageIndex : String := "application/vnd.oci.image.index.v1+json"
def ociManifestSchema1 : String := "application/vnd.oci.image.manifest.v1+json"
def dockerManifestSchema2 : String := "application/vnd.docker.distribution.manifest.v2+json"
def dockerManifestList : String := "application/vnd.docker.distribution.manifest.list.v2+json"
def dockerForeignLayer : String := "application/vnd.docker.image.rootfs.foreign.diff.tar.gzip"
def ociRestrictedLayer : String :=
  "application/vnd.oci.image.layer.nondistributable.v1.tar+gzip"
def ociUncompressedRestrictedLayer : String :=
  "application/vnd.oci.image.layer.nondistributable.v1.tar"

/-- `MediaType.IsDistributable`: every media type but the three non-distributable layers. -/
def isDistributable (m : String) : Bool :=
  !(m == dockerForeignLayer || m == ociRestrictedLayer || m == ociUncompressedRestrictedLayer)

/-- `MediaType.IsImage`. -/
def isImage (m : String) : Bool := m == ociManifestSchema1 || m == dockerManifestSchema2

/-- `MediaType.IsIndex`. -/
def isIndex (m : String) : Bool := m == ociImageIndex || m == dockerManifestList

end MediaType

/-- The fields of `v1.Descriptor` the handler reads or writes (`Data`, `URLs`, `Annotations`
and `Platform` are neither). -/
structure Descriptor where
  mediaType : String
  size : Int
  digest : Hash
  artifactType : String
deriving DecidableEq, Repr

/-- `v1.IndexManifest`, with the fields the handler reads or writes. -/
structure IndexManifest where
  schemaVersion : Int
  mediaType : String
  manifests : List Descriptor
deriving DecidableEq, Repr

/-- `v1.Manifest`, with the fields `handlePut` reads. -/
structure ImageManifest where
  config : Descriptor
  subject : Option Descriptor
  layers : List Descriptor
deriving DecidableEq, Repr

/-- `manifest.Blob`. -/
structure Blob where
  digest : Hash
  size : Int
deriving DecidableEq, Repr

/-- `manifest.Manifest`: the record the manifest store keeps for a reference. -/
structure Manifest where
  contentType : String
  blob : Blob
deriving DecidableEq, Repr

/-- The sentinel errors the handler tests with `errors.Is`. -/
inductive Sentinel
  | accessDenied
  | invalidArtifactName
  | nameUnknown
  | manifestUnknown
  | quotaExceeded
deriving DecidableEq, Repr

/-- A Go `error` value a collaborator or a library returns: a sentinel, a
`blob.RedirectError`, any other error, or two errors joined by `multierr.Combine`. -/
inductive Err
  | sentinel (s : Sentinel)
  | redirect (location : String) (code : Nat)
  | other (message : String)
  | combined (first second : Err)
deriving DecidableEq, Repr

namespace Err

/-- `errors.Is(err, s)`; a combined error is each of its parts. -/
def is : Err → Sentinel → Bool
  | sentinel s', s => s' == s
  | combined a b, s => a.is s || b.is s
  | _, _ => false

/-- `errors.As(err, &rerr)` for `rerr blob.RedirectError`: the location and status code. -/
def asRedirect : Err → Option (String × Nat)
  | redirect l c => some (l, c)
  | combined a b => a.asRedirect <|> b.asRedirect
  | _ => none

/-- Modelled from the spec: `err.Error()`.  The sentinels' packages are not under `src/`; only
the texts of `multierr.Combine` (joined by `"; "`) and of plain errors are the code's. -/
def text : Err → String
  | sentinel .accessDenied => "access denied"
  | sentinel .invalidArtifactName => "invalid artifact name"
  | sentinel .nameUnknown => "name unknown"
  | sentinel .manifestUnknown => "manifest unknown"
  | sentinel .quotaExceeded => "quota exceeded"
  | redirect l _ => "redirect to " ++ l
  | other m => m
  | combined a b => a.text ++ "; " ++ b.text

end Err

/-- `multierr.Combine` of two results. -/
def combine : Option Err → Option Err → Option Err
  | none, e => e
  | some a, none => some a
  | some a, some b => some (.combined a b)

/-- `regError`: the HTTP status, the OCI error code and the message of an error answer. -/
structure RegError where
  status : Nat
  code : String
  message : String
deriving DecidableEq, Repr

/-! The shared `regError` values.  Modelled from the spec: the registry's error file is not
under `src/`; statuses and codes are the spec's error table. -/

/-- Modelled from the spec: access denied, 403 `DENIED`. -/
def regErrDenied : RegError := ⟨403, "DENIED", "access denied"⟩
/-- Modelled from the spec: quota exceeded, 403 `DENIED` with a message naming the quota. -/
def regErrDeniedQuotaExceeded : RegError := ⟨403, "DENIED", "quota exceeded"⟩
/-- Modelled from the spec: invalid artifact name, 400 `NAME_INVALID`. -/
def regErrNameInvalid : RegError := ⟨400, "NAME_INVALID", "invalid name"⟩
/-- Modelled from the spec: unknown repository, 404 `NAME_UNKNOWN`. -/
def regErrNameUnknown : RegError := ⟨404, "NAME_UNKNOWN", "unknown name"⟩
/-- Modelled from the spec: unknown manifest, 404 `MANIFEST_UNKNOWN`. -/
def regErrManifestUnknown : RegError := ⟨404, "MANIFEST_UNKNOWN", "unknown manifest"⟩
/-- Modelled from the spec: unsupported method, 405 `METHOD_UNKNOWN`. -/
def regErrMethodUnknown : RegError := ⟨405, "METHOD_UNKNOWN", "method unknown"⟩
/-- Modelled from the spec: malformed manifest, 400 `MANIFEST_INVALID` carrying the error. -/
def regErrManifestInvalid (e : Err) : RegError := ⟨400, "MANIFEST_INVALID", e.text⟩
/-- Modelled from the spec: any other failure, 500 carrying the error's message. -/
def regErrInternal (e : Err) : RegError := ⟨500, "INTERNAL", e.text⟩

/-- A JSON value as `encoding/json` reads it: an object keeps its members in order, duplicate
names included; a number keeps its literal. -/
inductive Json
  | null
  | bool (b : Bool)
  | number (literal : String)
  | string (s : String)
  | array (elems : List Json)
  | object (members : List (String × Json))
deriving Repr

/-- The libraries `manifest.go` calls on bodies.  A body is what `bytes.Buffer` holds; the
handler only measures it, hashes it, stores it and hands it to `encoding/json`. -/
structure Deps where
  /-- The bytes of a body. -/
  Body : Type
  /-- `buf.Len()`. -/
  len : Body → Nat
  /-- `v1.SHA256`.  Reading a `bytes.Reader` never fails, so it returns a hash. -/
  sha256 : Body → Hash
  /-- `v1.SHA256` returns a `sha256` hash of 64 lowercase hex digits. -/
  sha256_valid : ∀ b, (sha256 b).Valid
  /-- The JSON text of a body as `json.Unmarshal` reads it, or its syntax error. -/
  unmarshal : Body → Except Err Json
  /-- `json.Marshal`. -/
  marshal : Json → Body
  /-- `json.Unmarshal` reads back what `json.Marshal` writes. -/
  unmarshal_marshal : ∀ j, unmarshal (marshal j) = .ok j
  /-- `strconv.ParseFloat(lit, 64)` succeeds: the literal is within float64's range. -/
  parseFloat64 : String → Bool
  /-- `v1.ParseIndexManifest`. -/
  parseIndexManifest : Body → Except Err IndexManifest
  /-- `v1.ParseManifest`. -/
  parseManifest : Body → Except Err ImageManifest
  /-- `[]byte(s)`: the bytes of a Go string. -/
  bytesOf : String → Body
  /-- `strconv.IsPrint` above Latin-1: the library's tables of printable runes. -/
  printTable : Char → Bool
  /-- `http.StatusText`. -/
  statusText : Nat → String
  /-- `url.Parse(s)` succeeds with an empty `Scheme` and an empty `Host`. -/
  urlRelative : String → Bool

end DistrRegistry
