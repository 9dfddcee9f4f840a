/-
How `encoding/json` fills the three anonymous structs `manifest.go` declares: the `Blobs []any`
of `checkIncompatibleManifest`, the `Subject *v1.Descriptor` and the `Config.MediaType` that
`handleReferrers` reads, and how `json.Marshal` writes the referrers index.

`json.Unmarshal` first checks the whole text is JSON; then it matches member names against
field names ignoring case (`foldName`), lets a later member overwrite an earlier one, and keeps
going after a type error, which it returns at the end.  An error from a field's own
`UnmarshalJSON` (a `v1.Hash` that does not parse) stops it where it is, with the fields decoded
so far kept.
-/
import DistrRegistry.Basic

namespace DistrRegistry

/-- `encoding/json`'s case folding of field names, rune by rune (`foldName`): ASCII letters to
upper case, and `ſ`, the Kelvin sign, `ı` and `İ` to the ASCII letter that
`unicode.ToUpper(unicode.ToLower(r))` gives them.  Every other non-ASCII rune folds to a
non-ASCII rune and so never matches the ASCII field names below; it is kept as it is. -/
def foldRune (c : Char) : Char :=
  if 'a' ≤ c ∧ c ≤ 'z' then Char.ofNat (c.toNat - 32)
  else if c = 'ſ' then 'S'
  else if c = 'K' then 'K'
  else if c = 'ı' ∨ c = 'İ' then 'I'
  else c

/-- A member named `key` fills the field whose JSON name is `name`. -/
def fieldMatches (name key : String) : Bool :=
  key.toList.map foldRune == name.toList.map foldRune

section

variable (D : Deps)

mutual

/-- Decoding into `any` fails only on a number outside float64's range: the literal of the
first such number, in the order of the text. -/
def anyErr : Json → Option String
  | .number lit => if D.parseFloat64 lit then none else some lit
  | .array xs => anyListErr xs
  | .object ms => anyMembersErr ms
  | _ => none

def anyListErr : List Json → Option String
  | [] => none
  | x :: xs => (anyErr x).or (anyListErr xs)

def anyMembersErr : List (String × Json) → Option String
  | [] => none
  | (_, x) :: ms => (anyErr x).or (anyMembersErr ms)

end

/-- The kind of a JSON value, as `encoding/json` names it in a type error. -/
def Json.kind : Json → String
  | .null => "null"
  | .bool _ => "bool"
  | .number _ => "number"
  | .string _ => "string"
  | .array _ => "array"
  | .object _ => "object"

/-- `UnmarshalTypeError.Error()` for a value described as `value` met in the `blobs` field of the
anonymous struct, where a Go value of type `wanted` was wanted. -/
def blobsTypeError (value wanted : String) : Err :=
  .other ("json: cannot unmarshal " ++ value ++ " into Go struct field .blobs of type " ++ wanted)

/-- `UnmarshalTypeError.Error()` for a top-level value of kind `value` that is no object. -/
def mfTypeError (value : String) : Err :=
  .other ("json: cannot unmarshal " ++ value ++
    " into Go value of type struct \x7b Blobs []interface \x7b\x7d \"json:\\\"blobs\\\"\" \x7d")

/-- One `blobs` member decoded into `[]any`: `null` empties the slice, an array replaces it
unless one of its numbers is out of float64's range, anything else is a type error. -/
def blobsValue : Json → Except Err (List Json)
  | .null => .ok []
  | .array xs =>
    match anyListErr D xs with
    | some lit => .error (blobsTypeError ("number " ++ lit) "float64")
    | none => .ok xs
  | v => .error (blobsTypeError v.kind "[]interface \x7b\x7d")

/-- The members of the top-level object, decoded into `Blobs` starting from `blobs`. -/
def blobsMembers (blobs : List Json) : List (String × Json) → Except Err (List Json)
  | [] => .ok blobs
  | (k, v) :: ms =>
    if fieldMatches "blobs" k then (blobsValue D v).bind fun xs => blobsMembers xs ms
    else blobsMembers blobs ms

/-- `json.Unmarshal(data, &mf)` with `mf struct { Blobs []any }`: its error, or `mf.Blobs`. -/
def unmarshalBlobs : Except Err Json → Except Err (List Json)
  | .error e => .error e
  | .ok .null => .ok []
  | .ok (.object ms) => blobsMembers D [] ms
  | .ok v => .error (mfTypeError v.kind)

/-- `checkIncompatibleManifest`: `MANIFEST_INVALID` when `json.Unmarshal` fails or leaves a
non-empty `Blobs`. -/
def checkIncompatibleManifest (data : D.Body) : Option RegError :=
  match unmarshalBlobs D (D.unmarshal data) with
  | .error e => some (regErrManifestInvalid e)
  | .ok blobs =>
    if blobs.length > 0 then
      some (regErrManifestInvalid (.other "non-compliant manifest with blobs entry detected"))
    else none

/-- The value of the last top-level member that decodes into `Blobs`, if any. -/
def lastBlobs : List (String × Json) → Option Json
  | [] => none
  | (k, v) :: ms => (lastBlobs ms).or (if fieldMatches "blobs" k then some v else none)

theorem blobsMembers_of_lastBlobs_none {acc : List Json} {ms : List (String × Json)}
    (h : lastBlobs ms = none) : blobsMembers D acc ms = .ok acc := by
  induction ms with
  | nil => rfl
  | cons m ms ih =>
    obtain ⟨k, v⟩ := m
    simp only [lastBlobs, Option.or_eq_none] at h
    obtain ⟨hms, hk⟩ := h
    split at hk
    · cases hk
    · simp only [blobsMembers, if_neg ‹_›, ih hms]

/-- `Blobs` ends as the array of the last member that decodes into it. -/
theorem blobsMembers_of_lastBlobs_array {acc ys xs : List Json} {ms : List (String × Json)}
    (h : lastBlobs ms = some (.array xs)) (hm : blobsMembers D acc ms = .ok ys) : ys = xs := by
  induction ms generalizing acc with
  | nil => cases h
  | cons m ms ih =>
    obtain ⟨k, v⟩ := m
    simp only [lastBlobs] at h
    simp only [blobsMembers] at hm
    cases hlast : lastBlobs ms with
    | some w =>
      rw [hlast] at h
      change some w = some (Json.array xs) at h
      split at hm
      · cases hv : blobsValue D v with
        | error e => rw [hv] at hm; cases hm
        | ok zs => rw [hv] at hm; exact ih (hlast.trans h) hm
      · exact ih (hlast.trans h) hm
    | none =>
      rw [hlast] at h
      split at h
      · cases h
        rw [if_pos ‹_›] at hm
        cases hok : anyListErr D xs with
        | some lit => simp only [blobsValue, hok] at hm; cases hm
        | none =>
          simp only [blobsValue, hok] at hm
          change blobsMembers D xs ms = .ok ys at hm
          rw [blobsMembers_of_lastBlobs_none D hlast] at hm
          exact (Except.ok.inj hm).symm
      · cases h

/-- A body whose last `blobs` member is a non-empty array is rejected. -/
theorem checkIncompatibleManifest_of_blobs {buf : D.Body} {ms : List (String × Json)} {x : Json}
    {xs : List Json} (hjson : D.unmarshal buf = .ok (.object ms))
    (hblobs : lastBlobs ms = some (.array (x :: xs))) :
    (checkIncompatibleManifest D buf).isSome := by
  unfold checkIncompatibleManifest
  rw [hjson]
  split
  · rfl
  · rename_i ys hys
    simp only [unmarshalBlobs] at hys
    rw [blobsMembers_of_lastBlobs_array D hblobs hys, if_pos (by simp)]
    rfl

end

/-- The zero `v1.Hash`, the `Digest` of a freshly allocated descriptor. -/
def Hash.zero : Hash := ⟨"", ""⟩

/-- The members of a `"subject"` object decoded into a descriptor whose `Digest` is `d`: the
`Digest` after them, and whether a `"digest"` that is not a valid hash stopped decoding. -/
def descriptorDigest (d : Hash) : List (String × Json) → Hash × Bool
  | [] => (d, false)
  | (k, v) :: ms =>
    if fieldMatches "digest" k then
      match v with
      | .string s =>
        match newHash s with
        | some h => descriptorDigest h ms
        | none => (d, true)
      | _ => (d, true)
    else descriptorDigest d ms

/-- The top-level members decoded into `refPointer.Subject`, `none` standing for nil and
`some d` for a descriptor whose `Digest` is `d`.  `null` sets it to nil; any other value first
allocates it. -/
def subjectMembers (subject : Option Hash) : List (String × Json) → Option Hash
  | [] => subject
  | (k, v) :: ms =>
    if fieldMatches "subject" k then
      match v with
      | .null => subjectMembers none ms
      | .object fs =>
        match descriptorDigest (subject.getD .zero) fs with
        | (d, true) => some d
        | (d, false) => subjectMembers (some d) ms
      | _ => subjectMembers (some (subject.getD .zero)) ms
    else subjectMembers subject ms

/-- `refPointer.Subject` after `_ = json.Unmarshal(buf.Bytes(), &refPointer)`, by its digest. -/
def unmarshalSubject : Except Err Json → Option Hash
  | .ok (.object ms) => subjectMembers none ms
  | _ => none

/-- The members of a `"config"` object decoded into `Config.MediaType`. -/
def configMediaType (mediaType : String) : List (String × Json) → String
  | [] => mediaType
  | (k, v) :: ms =>
    if fieldMatches "mediaType" k then
      match v with
      | .string s => configMediaType s ms
      | _ => configMediaType mediaType ms
    else configMediaType mediaType ms

/-- The top-level members decoded into `imageAsArtifact.Config.MediaType`; a `"config"` that
is not an object leaves it as it is. -/
def artifactMembers (mediaType : String) : List (String × Json) → String
  | [] => mediaType
  | (k, v) :: ms =>
    if fieldMatches "config" k then
      match v with
      | .object fs => artifactMembers (configMediaType mediaType fs) ms
      | _ => artifactMembers mediaType ms
    else artifactMembers mediaType ms

/-- `imageAsArtifact.Config.MediaType` after `_ = json.Unmarshal(buf.Bytes(), &imageAsArtifact)`. -/
def unmarshalArtifactType : Except Err Json → String
  | .ok (.object ms) => artifactMembers "" ms
  | _ => ""

/-- `json.Marshal` of a `v1.Descriptor` whose `Data`, `URLs`, `Annotations` and `Platform`
are empty (all `omitempty`). -/
def Descriptor.toJson (d : Descriptor) : Json :=
  .object ([("mediaType", .string d.mediaType), ("size", .number (toString d.size)),
    ("digest", .string d.digest.toString)] ++
    if d.artifactType = "" then [] else [("artifactType", .string d.artifactType)])

/-- `json.Marshal` of a `v1.IndexManifest` with no `Annotations` or `Subject`; `Manifests` is a
non-nil slice. -/
def IndexManifest.toJson (im : IndexManifest) : Json :=
  .object ([("schemaVersion", .number (toString im.schemaVersion))] ++
    (if im.mediaType = "" then [] else [("mediaType", .string im.mediaType)]) ++
    [("manifests", .array (im.manifests.map Descriptor.toJson))])

mutual

/-- The number of values a JSON value holds, itself included. -/
def Json.size : Json → Nat
  | .array xs => Json.sizeList xs + 1
  | .object ms => Json.sizeMembers ms + 1
  | _ => 1

def Json.sizeList : List Json → Nat
  | [] => 0
  | x :: xs => x.size + Json.sizeList xs

def Json.sizeMembers : List (String × Json) → Nat
  | [] => 0
  | (_, x) :: ms => x.size + Json.sizeMembers ms

end

/-- The digit `Nat.digitChar` writes for a remainder modulo 16 is a lowercase hex digit. -/
theorem isHexDigit_digitChar_mod (n : Nat) : Hash.isHexDigit (Nat.digitChar (n % 16)) = true :=
  (show ∀ i < 16, Hash.isHexDigit (Nat.digitChar i) = true by decide) _ (Nat.mod_lt _ (by decide))

/-- Bodies that are JSON values, `json.Marshal` the identity, the length of a body the number of
values it holds and its digest the 64-fold repetition of that length's last hex digit, and no
manifest parsing: a small `Deps` in which bodies of different sizes have different digests, to
run the handlers on concrete requests.  A Go string's bytes are the JSON string; every rune is
printable; `http.StatusText` knows 307; a URL is relative when it has no colon. -/
def jsonDeps : Deps where
  Body := Json
  len := Json.size
  sha256 b := Hash.ofDigit (Nat.digitChar (b.size % 16))
  sha256_valid b := Hash.ofDigit_valid (isHexDigit_digitChar_mod b.size)
  unmarshal := .ok
  marshal := id
  unmarshal_marshal _ := rfl
  parseFloat64 _ := true
  parseIndexManifest _ := .error (.other "unsupported")
  parseManifest _ := .error (.other "unsupported")
  bytesOf := .string
  printTable _ := true
  statusText code := if code = 307 then "Temporary Redirect" else ""
  urlRelative url := !url.toList.contains ':'

end DistrRegistry
