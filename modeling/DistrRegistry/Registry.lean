/-
The registry refines a map from references to bodies.  The abstract registry is the list of
committed pushes, newest first: a reference of a repository names the body of the last push
into it whose target or digest is that reference (`lookup`), and a pull of it answers with that
body as it was pushed (`Push.pulled`).

In every reachable world the manifest store answers as `lookup` does
(`World.Inv.get_of_lookup`), and the blob store holds each committed body under its digest,
provided the digest function has no collision on the bodies requests carry
(`World.Inv.blob_push`).  From these: GET answers every reference with the last push naming it,
and the sub-manifests of a recorded index are recorded.  A push to a digest-form target is not
checked against the body's digest, so a digest can come to name other bytes
(`digest_reference_repointed`).
-/
import Mathlib.Data.Set.Operations
import DistrRegistry.World

namespace DistrRegistry

open Prog

variable {D : Deps} {caps : BlobCaps}

/-- The abstract registry's lookup: the last push into `repo` whose target or digest is
`reference`. -/
def lookup (pushes : List (Push D)) (repo reference : String) : Option (Push D) :=
  pushes.find? fun p =>
    p.repo == repo && (p.target == reference || (D.sha256 p.body).toString == reference)

/-- The abstract registry's answer to a pull of a push: status 200, the push's digest, content
type and length, and its body. -/
def Push.pulled (p : Push D) : Response D :=
  ⟨some 200, [("Docker-Content-Digest", (D.sha256 p.body).toString),
    ("Content-Type", p.contentType), ("Content-Length", toString (D.len p.body))], [p.body]⟩

theorem lookup_spec {ps : List (Push D)} {repo reference : String} {p : Push D}
    (h : lookup ps repo reference = some p) :
    p ∈ ps ∧ p.repo = repo ∧ (p.target = reference ∨ (D.sha256 p.body).toString = reference) := by
  have hp := List.find?_some h
  simp only [Bool.and_eq_true, Bool.or_eq_true, beq_iff_eq] at hp
  exact ⟨List.mem_of_find?_eq_some h, hp⟩

/-- The transaction of a push records its manifest under its target and under its digest. -/
theorem find_puts (repo reference : String) (p : Push D) :
    (p.puts.reverse.find? fun x => x.repo == repo && x.reference == reference).map
        PutRequest.manifest =
      if p.repo == repo && (p.target == reference || (D.sha256 p.body).toString == reference)
      then some p.manifest else none := by
  simp only [Push.puts, Push.manifest, putRequests, putManifest, List.reverse_cons,
    List.reverse_nil, List.nil_append, List.singleton_append, List.find?_cons]
  cases p.repo == repo <;> cases p.target == reference <;>
    cases (D.sha256 p.body).toString == reference <;> rfl

/-- The records of the committed pushes answer a reference as `lookup` does. -/
theorem find_flatMap_puts (repo reference : String) (ps : List (Push D)) :
    ((ps.flatMap fun p => p.puts.reverse).find?
        fun x => x.repo == repo && x.reference == reference).map PutRequest.manifest =
      (lookup ps repo reference).map Push.manifest := by
  induction ps with
  | nil => rfl
  | cons p ps ih =>
    have h := find_puts repo reference p
    rw [List.flatMap_cons, List.find?_append, lookup, List.find?_cons, ← lookup]
    cases hx : p.puts.reverse.find? fun x => x.repo == repo && x.reference == reference with
    | none =>
      rw [hx, Option.map_none'] at h
      split
      · simp_all
      · exact ih
    | some x =>
      rw [hx, Option.map_some'] at h
      split
      · simp_all
      · simp_all

section Refinement

variable {S : Set D.Body} {w : World D caps}

/-! In every reachable world the stores implement the abstract registry. -/

theorem World.Inv.find_map (hw : w.Inv S) (repo reference : String) :
    (w.store.find repo reference).map PutRequest.manifest =
      (lookup w.pushes repo reference).map Push.manifest := by
  rw [State.find, hw.manifests]
  exact find_flatMap_puts repo reference w.pushes

theorem World.Inv.get_of_lookup (hw : w.Inv S) {repo reference : String} {p : Push D}
    (h : lookup w.pushes repo reference = some p) :
    w.store.get repo reference = .ok p.manifest := by
  have hfind := hw.find_map repo reference
  rw [h, Option.map_some', Option.map_eq_some'] at hfind
  obtain ⟨x, hx, hm⟩ := hfind
  simp [State.get, hx, hm]

theorem World.Inv.lookup_of_get (hw : w.Inv S) {repo reference : String} {m : Manifest}
    (h : w.store.get repo reference = .ok m) :
    ∃ p, lookup w.pushes repo reference = some p ∧ p.manifest = m := by
  unfold State.get at h
  split at h
  · rename_i x hx
    cases h
    have hfind := hw.find_map repo reference
    rw [hx, Option.map_some'] at hfind
    exact Option.map_eq_some'.mp hfind.symm
  · cases h

theorem World.Inv.get_of_lookup_none (hw : w.Inv S) {repo reference : String}
    (h : lookup w.pushes repo reference = none) :
    ∃ s, w.store.get repo reference = .error (.sentinel s) ∧
      (s = .nameUnknown ∨ s = .manifestUnknown) := by
  have hfind := hw.find_map repo reference
  rw [h, Option.map_none', Option.map_eq_none'] at hfind
  simp only [State.get, hfind]
  split <;> simp

/-- The blob store is content-addressed: the bytes held under a digest hash to it. -/
theorem World.Inv.blob_content (hw : w.Inv S) {repo : String} {digest : Hash} {b : D.Body}
    (h : w.store.blob repo digest = some b) : D.sha256 b = digest ∧ b ∈ S := by
  simp only [State.blob, Option.map_eq_some'] at h
  obtain ⟨x, hx, rfl⟩ := h
  have hkey := List.find?_some hx
  simp only [Bool.and_eq_true, beq_iff_eq] at hkey
  obtain ⟨hd, hS⟩ := hw.blobs x (List.mem_of_find?_eq_some hx)
  exact ⟨hd ▸ hkey.2, hS⟩

/-- Without collisions on the bodies requests carry, the blob store holds each committed body
under its digest. -/
theorem World.Inv.blob_push (hS : Set.InjOn D.sha256 S) (hw : w.Inv S) {p : Push D}
    (hp : p ∈ w.pushes) : w.store.blob p.repo (D.sha256 p.body) = some p.body := by
  obtain ⟨hbody, hstored, -⟩ := hw.pushes p hp
  obtain ⟨b, hb⟩ := Option.isSome_iff_exists.mp hstored
  obtain ⟨hd, hbS⟩ := hw.blob_content hb
  rw [hb, hS hbS hbody hd]

end Refinement

/-- GET against a blob store that never redirects: a record whose bytes are held is sent with
status 200, its digest, content type and length, and its bytes; a failed lookup is answered
with its `regError`. -/
theorem handleGet_serves (body : Except Err D.Body) (σ : State D) (req : Request D)
    (repo target : String) :
    (handleGet req repo target).WpIn (Answers false body) State.apply σ fun es res =>
      (∀ m b, σ.get repo target = .ok m → σ.blob repo m.blob.digest = some b →
        Response.of es = ⟨some 200, [("Docker-Content-Digest", m.blob.digest.toString),
          ("Content-Type", m.contentType), ("Content-Length", toString (D.len b))], [b]⟩) ∧
      ∀ e, σ.get repo target = .error e → res = some (manifestGetError e) := by
  simp only [handleGet, manifestGet, blobGet, auditPull, redirect, setHeader, writeHeader, write,
    call_bind, Prog.pure_bind, pure_eq, wpIn_call, wpIn_pure, Answers]
  rintro _ rfl
  rcases σ.get repo target with e | m
  · exact ⟨nofun, fun _ h => by cases h; rfl⟩
  · rintro r hr
    simp only [State.apply, Answers, Bool.false_and] at hr ⊢
    rcases hb : σ.blob repo m.blob.digest with _ | b
    · exact wpIn_iff.mpr fun _ _ _ _ => ⟨(by rintro _ _ ⟨⟩ h'; cases hb.symm.trans h'), nofun⟩
    · rw [hb] at hr
      obtain rfl | ⟨h, -⟩ := hr
      · intro _ _ _ _ _ _ _ _ w _
        cases w with
        | some e => exact ⟨fun _ _ hm hb' => by cases hm; cases hb.symm.trans hb'; rfl, nofun⟩
        | none => exact fun _ _ => ⟨fun _ _ hm hb' => by cases hm; cases hb.symm.trans hb'; rfl, nofun⟩
      · cases h

/-! Laws over every reachable world. -/

/-- GET refines the abstract registry.  In every world some interleaving of requests reaches,
with no collision of the digest function on the bodies requests carry, a GET run against a
blob store that never redirects answers a reference with the last committed push into the
repository whose target or digest is that reference, exactly as it was pushed; and with
`NAME_UNKNOWN` or `MANIFEST_UNKNOWN` when there is none. -/
theorem get_refines_pushes {S : Set D.Body} (hS : Set.InjOn D.sha256 S) {redirects : Bool}
    {w : World D caps} (hw : Reachable S redirects w) (body : Except Err D.Body)
    (req : Request D) (repo reference : String) {es : List (Ev D)} {res : Option RegError}
    (hget : Exec false body (handleGet req repo reference) w.store es res) :
    (∀ p, lookup w.pushes repo reference = some p → Response.of es = p.pulled) ∧
    (lookup w.pushes repo reference = none →
      res = some regErrNameUnknown ∨ res = some regErrManifestUnknown) := by
  have hinv := hw.inv
  obtain ⟨hok, herr⟩ := Exec.of_wpIn (handleGet_serves body w.store req repo reference) hget
  refine ⟨fun p hp => hok _ _ (hinv.get_of_lookup hp) ?_, fun hp => ?_⟩
  · obtain ⟨hmem, rfl, -⟩ := lookup_spec hp
    exact hinv.blob_push hS hmem
  · obtain ⟨s, hs, rfl | rfl⟩ := hinv.get_of_lookup_none hp
    · exact .inl (herr _ hs)
    · exact .inr (herr _ hs)

/-- A GET of `acme/app` at `reference`. -/
def pullOf (reference : String) : Request jsonDeps :=
  ⟨"GET", "/v2/acme/app/manifests/" ++ reference, [], "", .ok Json.null⟩

/-- A push of `body` to `acme/app` at `target`, with content type `text/plain`. -/
def pushOf (target : String) (body : Json) : Request jsonDeps :=
  ⟨"PUT", "/v2/acme/app/manifests/" ++ target, [], "text/plain", .ok body⟩

/-- A push of `null` to `acme/app:v1`; a GET of `v1` answers it as it was pushed. -/
theorem get_refines_pushes_v1 :
    ∃ (w : World jsonDeps ⟨true, true⟩) (es : List (Ev jsonDeps)) (res : Option RegError),
      Reachable (D := jsonDeps) ({Json.null} : Set Json) false w ∧
      Exec false (.ok Json.null : Except Err jsonDeps.Body) (handleGet (pullOf "v1") "acme/app" "v1")
        w.store es res ∧
      lookup w.pushes "acme/app" "v1" = some ⟨"acme/app", "v1", "text/plain", Json.null⟩ ∧
      Response.of es = (⟨"acme/app", "v1", "text/plain", Json.null⟩ : Push jsonDeps).pulled := by
  have hpush : Exec false (.ok Json.null) (handle ⟨true, true⟩ (pushOf "v1" .null))
      State.empty _ none := Exec.of_respond rfl
  obtain ⟨w, hw, hstore, hpushes, -⟩ :=
    (Reachable.init (D := jsonDeps) (S := ({Json.null} : Set Json))).arrive_run
      (pushOf "v1" .null) rfl (fun _ hb => (Except.ok.inj hb).symm) hpush
  have hget : Exec false (.ok Json.null : Except Err jsonDeps.Body)
      (handleGet (pullOf "v1") "acme/app" "v1") w.store _ _ :=
    Exec.of_respond (by rw [hstore]; rfl)
  have hlookup : lookup w.pushes "acme/app" "v1" = some ⟨"acme/app", "v1", "text/plain", Json.null⟩ := by
    rw [hpushes]
    rfl
  exact ⟨w, _, _, hw, hget, hlookup,
    (get_refines_pushes (Set.injOn_singleton _ _) hw _ _ _ _ hget).1 _ hlookup⟩

/-- A digest comes to name other bytes.  `null` is pushed to `acme/app:v1`, then `{"v": null}` to
the reference that is the digest of `null`: the second push succeeds, and a GET by the digest
of `null` then sends `{"v": null}`, with the other digest in `Docker-Content-Digest`. -/
theorem digest_reference_repointed :
    ∃ (w : World jsonDeps ⟨true, true⟩) (es : List (Ev jsonDeps)) (res : Option RegError),
      Reachable (D := jsonDeps) ({Json.null, .object [("v", .null)]} : Set Json) false w ∧
      w.pushes.length = 2 ∧
      Exec false (.ok Json.null : Except Err jsonDeps.Body)
        (handleGet (pullOf (jsonDeps.sha256 .null).toString) "acme/app"
          (jsonDeps.sha256 .null).toString) w.store es res ∧
      (Response.of es).body = [.object [("v", .null)]] ∧
      (Response.of es).header "Docker-Content-Digest" =
        some (jsonDeps.sha256 (.object [("v", .null)])).toString ∧
      jsonDeps.sha256 (.object [("v", .null)]) ≠ jsonDeps.sha256 .null := by
  have hfirst : Exec false (.ok Json.null) (handle ⟨true, true⟩ (pushOf "v1" .null))
      State.empty _ none := Exec.of_respond rfl
  obtain ⟨w₁, hw₁, hstore₁, hpushes₁, -⟩ :=
    (Reachable.init (D := jsonDeps) (S := ({Json.null, .object [("v", .null)]} : Set Json))).arrive_run
      (pushOf "v1" .null) rfl (fun _ hb => .inl (Except.ok.inj hb).symm) hfirst
  have hsecond : Exec false (.ok (Json.object [("v", .null)])) (handle ⟨true, true⟩
      (pushOf (jsonDeps.sha256 .null).toString (.object [("v", .null)]))) w₁.store _ none :=
    Exec.of_respond (by rw [hstore₁]; rfl)
  obtain ⟨w, hw, hstore, hpushes, -⟩ := hw₁.arrive_run
    (pushOf (jsonDeps.sha256 .null).toString (.object [("v", .null)])) rfl
    (fun _ hb => .inr (Except.ok.inj hb).symm) hsecond
  have hget : Exec false (.ok Json.null : Except Err jsonDeps.Body)
      (handleGet (pullOf (jsonDeps.sha256 .null).toString) "acme/app"
        (jsonDeps.sha256 .null).toString) w.store _ _ :=
    Exec.of_respond (by rw [hstore, hstore₁]; rfl)
  exact ⟨w, _, _, hw, by rw [hpushes, hpushes₁]; rfl, hget, rfl, rfl, by decide⟩

/-- Index closure.  In every world some interleaving of requests reaches, with no collision of
the digest function on the bodies requests carry, every distributable image or index listed by
the body of a recorded index is itself recorded, in the same repository. -/
theorem index_closure {S : Set D.Body} (hS : Set.InjOn D.sha256 S) {redirects : Bool}
    {w : World D caps} (hw : Reachable S redirects w) {repo reference : String} {m : Manifest}
    (hget : w.store.get repo reference = .ok m) (hidx : MediaType.isIndex m.contentType = true)
    {b : D.Body} (hb : w.store.blob repo m.blob.digest = some b) {im : IndexManifest}
    (him : D.parseIndexManifest b = .ok im) {d : Descriptor} (hd : d ∈ im.manifests)
    (hdist : MediaType.isDistributable d.mediaType = true)
    (hkind : (MediaType.isIndex d.mediaType || MediaType.isImage d.mediaType) = true) :
    ∃ m', w.store.get repo d.digest.toString = .ok m' := by
  have hinv := hw.inv
  obtain ⟨p, hp, rfl⟩ := hinv.lookup_of_get hget
  obtain ⟨hmem, rfl, -⟩ := lookup_spec hp
  obtain rfl : b = p.body := Option.some.inj (hb.symm.trans (hinv.blob_push hS hmem))
  have hfound := (hinv.pushes p hmem).2.2 d.digest.toString
    ⟨hidx, im, him, d, hd, by simp [required, hdist, hkind], rfl⟩
  obtain ⟨x, hx⟩ := Option.isSome_iff_exists.mp hfound
  exact ⟨x.manifest, by simp [State.get, hx]⟩

/-- Whether a JSON value is the empty object. -/
def Json.isEmptyObject : Json → Bool
  | .object [] => true
  | _ => false

/-- Bodies that are JSON values, of length 0: the empty object is an image manifest and hashes
to the zero digits; any other value is an index listing that image, and hashes to the one
digits. -/
def indexDeps : Deps where
  Body := Json
  len _ := 0
  sha256 b := Hash.ofDigit (if b.isEmptyObject then '0' else '1')
  sha256_valid b := Hash.ofDigit_valid (by split <;> rfl)
  unmarshal := .ok
  marshal := id
  unmarshal_marshal _ := rfl
  parseFloat64 _ := true
  parseIndexManifest b := if b.isEmptyObject then .error (.other "not an index")
    else .ok ⟨2, MediaType.ociImageIndex, [⟨MediaType.ociManifestSchema1, 0, Hash.ofDigit '0', ""⟩]⟩
  parseManifest b := if b.isEmptyObject then .ok ⟨⟨"", 0, Hash.ofDigit '2', ""⟩, none, []⟩
    else .error (.other "not an image")
  bytesOf := .string
  printTable _ := true
  statusText _ := ""
  urlRelative _ := true

/-- An image pushed as `base`, then an index listing it as `v1`: the index's image is recorded.
-/
theorem index_closure_v1 :
    ∃ (w : World indexDeps ⟨true, true⟩) (m : Manifest) (im : IndexManifest),
      Reachable (D := indexDeps) ({Json.object [], Json.object [("manifests", Json.array [])]} : Set Json) false w ∧
      w.store.get "acme/app" "v1" = .ok m ∧ MediaType.isIndex m.contentType = true ∧
      w.store.blob "acme/app" m.blob.digest = some (Json.object [("manifests", Json.array [])]) ∧
      indexDeps.parseIndexManifest (Json.object [("manifests", Json.array [])]) = .ok im ∧
      ∃ d ∈ im.manifests, MediaType.isDistributable d.mediaType = true ∧
        (MediaType.isIndex d.mediaType || MediaType.isImage d.mediaType) = true ∧
        ∃ m', w.store.get "acme/app" d.digest.toString = .ok m' := by
  have hS : Set.InjOn indexDeps.sha256 ({Json.object [], Json.object [("manifests", Json.array [])]} : Set Json) := by
    rintro x (rfl | rfl) y (rfl | rfl) h
    all_goals first | rfl | exact absurd h (by decide)
  have himage : Exec false (.ok (Json.object [])) (handle ⟨true, true⟩ (⟨"PUT", "/v2/acme/app/manifests/base", [],
      MediaType.ociManifestSchema1, .ok (Json.object [])⟩ : Request indexDeps)) State.empty _ none :=
    Exec.of_respond rfl
  obtain ⟨w₁, hw₁, hstore₁, -⟩ := (@Reachable.init indexDeps ⟨true, true⟩
    ({Json.object [], Json.object [("manifests", Json.array [])]} : Set Json) false).arrive_run
    ⟨"PUT", "/v2/acme/app/manifests/base", [], MediaType.ociManifestSchema1, .ok (Json.object [])⟩ rfl
    (fun _ hb => .inl (Except.ok.inj hb).symm) himage
  have hindex : Exec false (.ok (Json.object [("manifests", Json.array [])])) (handle ⟨true, true⟩
      (⟨"PUT", "/v2/acme/app/manifests/v1", [], MediaType.ociImageIndex,
        .ok (Json.object [("manifests", Json.array [])])⟩ : Request indexDeps)) w₁.store _ none :=
    Exec.of_respond (by rw [hstore₁]; rfl)
  obtain ⟨w, hw, hstore, -⟩ := hw₁.arrive_run
    ⟨"PUT", "/v2/acme/app/manifests/v1", [], MediaType.ociImageIndex,
      .ok (Json.object [("manifests", Json.array [])])⟩ rfl
    (fun _ hb => .inr (Except.ok.inj hb).symm) hindex
  have hget : w.store.get "acme/app" "v1" = .ok ⟨MediaType.ociImageIndex, ⟨Hash.ofDigit '1', 0⟩⟩ := by
    rw [hstore, hstore₁]
    rfl
  have hb : w.store.blob "acme/app" (Hash.ofDigit '1') = some (Json.object [("manifests", Json.array [])]) := by
    rw [hstore, hstore₁]
    rfl
  refine ⟨w, _, _, hw, hget, rfl, hb, rfl, _, List.mem_singleton_self _, rfl, rfl,
    index_closure hS hw hget rfl hb rfl (List.mem_singleton_self _) rfl rfl⟩

end DistrRegistry
