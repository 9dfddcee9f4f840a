/-
Pushes: `handlePut`.  A push that fails commits nothing, so neither of its two references is
recorded, and one that fails before its blob `Put` (`MANIFEST_INVALID`, `MANIFEST_UNKNOWN`)
writes nothing at all.  A body whose last `blobs` member is a non-empty array is never stored;
one whose `blobs` is empty is.  The `Location` of a successful push is the request path with
the digest appended, which names another repository.
-/
import DistrRegistry.Environment
import DistrRegistry.Handler

namespace DistrRegistry

open Prog

variable {D : Deps}

/-- The codes of the `regError`s a push fails with before its blob `Put`. -/
def RegError.beforePut (err : RegError) : Prop :=
  err.code = "MANIFEST_INVALID" ∨ err.code = "MANIFEST_UNKNOWN"

theorem indexDependencies_writes (repo : String) (blobs : List Blob) (ds : List Descriptor) :
    (indexDependencies (D := D) repo blobs ds).Always fun e => e.1.writes = false := by
  induction ds generalizing blobs with
  | nil => exact always_pure
  | cons desc rest ih =>
    unfold indexDependencies
    split
    · exact ih blobs
    · split
      · simp only [manifestGet, call_bind, pure_bind, pure_eq, always_call, always_pure,
          Call.Ret, except_forall, Call.writes, true_and, implies_true]
        exact fun _ => ih _
      · exact ih blobs

theorem indexDependencies_errors (repo : String) (blobs : List Blob) (ds : List Descriptor) :
    (indexDependencies (D := D) repo blobs ds).Wp fun _ r =>
      ∀ err, r = .error err → err.beforePut := by
  induction ds generalizing blobs with
  | nil => simp [indexDependencies]
  | cons desc rest ih =>
    unfold indexDependencies
    split
    · exact ih blobs
    · split
      · simp only [manifestGet, call_bind, pure_bind, pure_eq, wp_call, wp_pure, Call.Ret,
          except_forall]
        exact ⟨fun _ _ h => by cases h; exact Or.inr rfl, fun _ => ih _⟩
      · exact ih blobs

theorem putDependencies_writes (repo contentType : String) (buf : D.Body) :
    (putDependencies repo contentType buf).Always fun e => e.1.writes = false := by
  unfold putDependencies
  split
  · split
    · exact always_pure
    · exact indexDependencies_writes repo [] _
  · split <;> [split <;> exact always_pure; exact always_pure]

theorem putDependencies_errors (repo contentType : String) (buf : D.Body) :
    (putDependencies repo contentType buf).Wp fun _ r =>
      ∀ err, r = .error err → err.beforePut := by
  unfold putDependencies
  split
  · split
    · exact fun _ h => by cases h; exact Or.inl rfl
    · exact indexDependencies_errors repo [] _
  · split
    · split
      · exact fun _ h => by cases h; exact Or.inl rfl
      · exact fun _ h => by cases h
    · exact fun _ h => by cases h

theorem committed_of_writes_false {e : Ev D} (h : e.1.writes = false) : committed e = false := by
  obtain ⟨c, r⟩ := e
  cases c <;> first | rfl | cases h

theorem regErrInternal_not_beforePut (e : Err) : ¬ (regErrInternal e).beforePut := by
  simp [RegError.beforePut, regErrInternal]

theorem putTxError_not_beforePut (e : Err) : ¬ (putTxError e).beforePut := by
  unfold putTxError
  split
  · simp [RegError.beforePut, regErrDeniedQuotaExceeded]
  · exact regErrInternal_not_beforePut e

/-- A push that fails commits nothing; one that fails with `MANIFEST_INVALID` or
`MANIFEST_UNKNOWN` writes nothing at all. -/
theorem handlePutBuffer_fails (caps : BlobCaps) (req : Request D) (repo target : String)
    (buf : D.Body) :
    (handlePutBuffer caps req repo target buf).Wp fun es res => ∀ err, res = some err →
      (∀ e ∈ es, committed e = false) ∧ (err.beforePut → ∀ e ∈ es, e.1.writes = false) := by
  unfold handlePutBuffer
  rw [wp_bind]
  refine ((putDependencies_writes repo _ buf).wp.and (putDependencies_errors repo _ buf)).mono ?_
  have hc : ∀ es : List (Ev D), (∀ e ∈ es, e.1.writes = false) → ∀ e ∈ es, committed e = false :=
    fun _ hw e he => committed_of_writes_false (hw e he)
  rintro es (e | blobs) ⟨hw, he⟩ <;> dsimp only
  · simp only [pure_eq, wp_pure, List.append_nil]
    rintro err ⟨⟩
    exact ⟨hc es hw, fun _ => hw⟩
  · split
    · simp only [pure_eq, wp_pure, List.append_nil]
      rintro err ⟨⟩
      exact ⟨hc es hw, fun _ => hw⟩
    · split
      · simp only [pure_eq, wp_pure, List.append_nil]
        rintro err ⟨⟩
        exact ⟨hc es hw, fun h => absurd h (regErrInternal_not_beforePut _)⟩
      · have hc' : ∀ es' : List (Ev D), (∀ e ∈ es', committed e = false) →
            ∀ e ∈ es ++ es', committed e = false := fun es' h' e he =>
          (List.mem_append.mp he).elim (hc es hw e) (h' e)
        rintro (_ | x)
        · rintro (_ | x)
          · exact fun _ _ _ _ _ h => nomatch h
          · rintro _ ⟨⟩
            exact ⟨hc' _ (List.forall_mem_cons.mpr ⟨rfl, List.forall_mem_singleton.mpr rfl⟩),
              fun h => absurd h (putTxError_not_beforePut x)⟩
        · rintro _ ⟨⟩
          exact ⟨hc' _ (List.forall_mem_singleton.mpr rfl),
            fun h => absurd h (regErrInternal_not_beforePut x)⟩

theorem handlePut_fails (caps : BlobCaps) (req : Request D) (repo target : String) :
    (handlePut caps req repo target).Wp fun es res => ∀ err, res = some err →
      (∀ e ∈ es, committed e = false) ∧ (err.beforePut → ∀ e ∈ es, e.1.writes = false) := by
  simp only [handlePut, readBody, call_bind, pure_bind, pure_eq, wp_call, wp_pure, Call.Ret,
    except_forall]
  refine ⟨fun e err h => ?_, fun buf => ?_⟩
  · cases h
    exact ⟨by simp [committed], fun h => absurd h (regErrInternal_not_beforePut e)⟩
  · refine (handlePutBuffer_fails caps req repo target buf).mono fun es res h err hres => ?_
    obtain ⟨hc, hw⟩ := h err hres
    exact ⟨List.forall_mem_cons.mpr ⟨rfl, hc⟩, fun hb => List.forall_mem_cons.mpr ⟨rfl, hw hb⟩⟩

/-- Failure atomicity of a push.  From any state of the stores, whatever the collaborators
answer, a run of `handlePut` that returns a `regError` leaves the manifest store as it was, so
neither of the push's two references is recorded; one that fails before its blob `Put`, with
`MANIFEST_INVALID` or `MANIFEST_UNKNOWN`, leaves the blob store as it was as well. -/
theorem failed_push_changes_nothing (caps : BlobCaps) (req : Request D) (repo target : String)
    (σ : State D) {es : List (Ev D)} {err : RegError}
    (h : (handlePut caps req repo target).Steps es (.pure (some err))) :
    (after State.apply σ es).manifests = σ.manifests ∧
      (err.beforePut → after State.apply σ es = σ) := by
  obtain ⟨hc, hw⟩ := wp_iff.mp (handlePut_fails caps req repo target) es _ h err rfl
  exact ⟨manifests_after_of_committed_false hc, fun hb => after_of_writes_false (hw hb)⟩

theorem failed_push_changes_nothing_index :
    ∃ es, (handlePut ⟨true, true⟩ (⟨"PUT", "/v2/acme/app/manifests/v1", [],
        MediaType.ociImageIndex, .ok Json.null⟩ : Request jsonDeps) "acme/app" "v1").Steps es
        (.pure (some (regErrManifestInvalid (.other "unsupported")))) ∧
      ((after State.apply State.empty es).manifests = (State.empty : State jsonDeps).manifests ∧
        ((regErrManifestInvalid (.other "unsupported")).beforePut →
          after State.apply State.empty es = State.empty)) := by
  have hrun : Exec false (.ok Json.null) (handlePut ⟨true, true⟩ (⟨"PUT",
      "/v2/acme/app/manifests/v1", [], MediaType.ociImageIndex, .ok Json.null⟩ : Request jsonDeps)
      "acme/app" "v1") State.empty _ _ := Exec.of_respond rfl
  exact ⟨_, hrun.1, failed_push_changes_nothing _ _ _ _ State.empty hrun.1⟩

theorem handlePutBuffer_rejected (caps : BlobCaps) (req : Request D) (repo target : String)
    {buf : D.Body} (hcheck : (checkIncompatibleManifest D buf).isSome) :
    (handlePutBuffer caps req repo target buf).Always (fun e => e.1.writes = false) ∧
    (handlePutBuffer caps req repo target buf).Wp fun _ res => res.isSome := by
  obtain ⟨err, herr⟩ := Option.isSome_iff_exists.mp hcheck
  unfold handlePutBuffer
  refine ⟨always_bind (putDependencies_writes repo _ buf) fun deps => ?_,
    wp_bind.mpr (wp_of_forall fun _ deps => ?_)⟩ <;>
    rcases deps with e | blobs <;> simp only [herr, pure_eq, always_pure, wp_pure] <;> rfl

/-- Bodies with a non-empty top-level `blobs` array are never stored.  Whatever the content
type, the target and the collaborators' answers, a run of `handlePut` that reads a body whose
JSON is an object with a last member matching `blobs` that is a non-empty array calls neither
the blob store's `Put` nor the transaction, and returns a `regError` if it returns. -/
theorem nonCompliant_never_stored (caps : BlobCaps) (req : Request D) (repo target : String)
    {buf : D.Body} {ms : List (String × Json)} {x : Json} {xs : List Json}
    (hjson : D.unmarshal buf = .ok (.object ms)) (hblobs : lastBlobs ms = some (.array (x :: xs)))
    {es : List (Ev D)} {q : Handler D (Option RegError)}
    (hrun : (handlePut caps req repo target).Steps (⟨.readBody, .ok buf⟩ :: es) q) :
    (∀ e ∈ es, e.1.writes = false) ∧ ∀ res, q = .pure res → res.isSome := by
  obtain ⟨hw, hres⟩ := handlePutBuffer_rejected caps req repo target
    (checkIncompatibleManifest_of_blobs D hjson hblobs)
  cases hrun with
  | step _ hrun =>
    exact ⟨hw.of_steps hrun, fun res hq => wp_iff.mp hres es res (hq ▸ hrun)⟩

theorem nonCompliant_never_stored_push :
    ∃ es res, (handlePut ⟨true, true⟩ (⟨"PUT", "/v2/acme/app/manifests/v1", [], "text/plain",
        .ok (.object [("blobs", .array [.null])])⟩ : Request jsonDeps) "acme/app" "v1").Steps
        (⟨.readBody, .ok (.object [("blobs", .array [.null])])⟩ :: es) (.pure res) ∧
      ((∀ e ∈ es, e.1.writes = false) ∧ ∀ r, (Prog.pure res : Handler jsonDeps _) = .pure r → r.isSome) := by
  have hrun : Exec false (.ok (Json.object [("blobs", .array [.null])]) : Except Err jsonDeps.Body)
      (handlePut ⟨true, true⟩
      (⟨"PUT", "/v2/acme/app/manifests/v1", [], "text/plain",
        .ok (.object [("blobs", .array [.null])])⟩ : Request jsonDeps) "acme/app" "v1")
      State.empty _ _ := Exec.of_respond rfl
  exact ⟨_, _, hrun.1, nonCompliant_never_stored _ _ _ _
    (show jsonDeps.unmarshal (Json.object [("blobs", .array [.null])]) =
      .ok (.object [("blobs", .array [.null])]) from rfl)
    (show lastBlobs [("blobs", Json.array [.null])] = some (.array [.null]) from rfl) hrun.1⟩

/-! Runs against stores that answer every call with success. -/

/-- The run of a push of a body that passes `checkIncompatibleManifest`, with a content type
that is neither an index nor an image: the body is read, stored under its digest and recorded
under its digest and its target, and the push answers 201. -/
theorem run_handlePut (req : Request D) (repo target : String) (σ : State D) {B : D.Body}
    (hcheck : checkIncompatibleManifest D B = none)
    (hindex : MediaType.isIndex req.contentType = false)
    (himage : MediaType.isImage req.contentType = false) :
    Prog.run State.apply (State.respond none (.ok B)) (handlePut ⟨true, true⟩ req repo target) σ =
      some ([⟨.readBody, .ok B⟩, ⟨.blobPut repo (D.sha256 B) req.contentType B, none⟩,
        ⟨.runTx (putRequests repo target (putManifest req.contentType B) []), none⟩,
        ⟨.setHeader "Docker-Content-Digest" (D.sha256 B).toString, ()⟩,
        ⟨.setHeader "OCI-Subject" (D.sha256 B).toString, ()⟩,
        ⟨.setHeader "Location" (joinPath req.path (D.sha256 B).toString), ()⟩,
        ⟨.writeHeader 201, ()⟩], none) := by
  simp [Prog.run, handlePut, handlePutBuffer, readBody, blobPut, runTx, setHeader, writeHeader,
    putDependencies, hcheck, hindex, himage, State.respond, putManifest, Prog.bind]

theorem run_authorizedReference (repo target : String) (action : Action)
    (next : Handler D (Option RegError)) (body : Except Err D.Body) (σ : State D) :
    Prog.run State.apply (State.respond none body) (authorizedReference repo target action next) σ =
      (Prog.run State.apply (State.respond none body) next σ).map fun (es, a) =>
        (⟨.authorizeReference repo target action, none⟩ :: es, a) := rfl

/-- A body whose top-level `blobs` is an empty array is stored, for every `Deps`: a push of it
with a content type that is neither an index nor an image returns `nil` after the blob `Put` and
the transaction. -/
theorem handlePut_empty_blobs (D : Deps) :
    ∃ es, Exec false (.ok (D.marshal (.object [("blobs", .array [])])))
      (handlePut ⟨true, true⟩ ⟨"PUT", "/v2/acme/app/manifests/v1", [], "text/plain",
        .ok (D.marshal (.object [("blobs", .array [])]))⟩ "acme/app" "v1") State.empty es none ∧
      ∃ e ∈ es, e.1.writes = true := by
  generalize hB : D.marshal (.object [("blobs", .array [])]) = B
  have hcheck : checkIncompatibleManifest D B = none := by
    unfold checkIncompatibleManifest
    rw [← hB, D.unmarshal_marshal]
    rfl
  exact ⟨_, Exec.of_respond (run_handlePut _ _ _ _ hcheck rfl rfl), _,
    List.mem_cons_of_mem _ (List.mem_cons_self _ _), rfl⟩

/-- The same push over the JSON of the Go libraries (`jsonDeps`): the body is stored. -/
theorem empty_blobs_stored :
    ∃ es, Exec false (.ok (jsonDeps.marshal (.object [("blobs", .array [])])))
      (handlePut ⟨true, true⟩ ⟨"PUT", "/v2/acme/app/manifests/v1", [], "text/plain",
        .ok (jsonDeps.marshal (.object [("blobs", .array [])]))⟩ "acme/app" "v1") State.empty es none ∧
      ∃ e ∈ es, e.1.writes = true :=
  handlePut_empty_blobs jsonDeps

/-! The `Location` a successful push answers with. -/

theorem handlePutBuffer_location (caps : BlobCaps) (req : Request D) (repo target : String)
    (buf : D.Body) :
    (handlePutBuffer caps req repo target buf).Wp fun es res => res = none →
      ⟨.setHeader "Location" (joinPath req.path (D.sha256 buf).toString), ()⟩ ∈ es := by
  unfold handlePutBuffer
  rw [wp_bind]
  refine wp_of_forall fun es deps => ?_
  rcases deps with e | blobs <;> dsimp only
  · exact fun h => by cases h
  · split
    · exact fun h => by cases h
    · split
      · exact fun h => by cases h
      · rintro (_ | x)
        · rintro (_ | x)
          · rintro ⟨⟩ ⟨⟩ ⟨⟩ ⟨⟩ -
            exact List.mem_append_right _ (by simp [putManifest])
          · exact fun h => nomatch h
        · exact fun h => nomatch h

theorem handle_put_location (caps : BlobCaps) (req : Request D) {repo target : String}
    (hparse : repoTarget req.path = some (repo, target)) (hput : req.method = "PUT") :
    (handle caps req).Wp fun es res => res = none → ∃ buf,
      (⟨.readBody, .ok buf⟩ : Ev D) ∈ es ∧
      ⟨.setHeader "Location" (joinPath req.path (D.sha256 buf).toString), ()⟩ ∈ es := by
  simp only [handle, hparse, hput, authorizedReference, handlePut, authorizeReference, readBody,
    call_bind, pure_bind, wp_call]
  rw [if_neg (by decide), if_neg (by decide), if_pos trivial]
  rintro (_ | e)
  · rintro (e | buf)
    · exact fun h => by cases h
    · refine (handlePutBuffer_location caps req repo target buf).mono fun es res h hres => ?_
      exact ⟨buf, by simp, by simp [h hres]⟩
  · exact fun h => by cases h

/-- The `Location` of a push names another repository.  For a manifest path of plain segments
`/s/r₁/…/rₖ/manifests/t`, which `handle` parses into the repository `r₁/…/rₖ` and the target
`t`, every push that succeeds answers with the `Location` `/s/r₁/…/rₖ/manifests/t/<digest>`:
`handle` parses that into the repository `r₁/…/rₖ/manifests`, and `isManifest` accepts it only
when `t` is `manifests`. -/
theorem push_location_names_other_repo (caps : BlobCaps) (req : Request D) {s t : String}
    {repoSegs : List String}
    (hpath : req.path = "/" ++ String.intercalate "/" (s :: repoSegs ++ ["manifests", t]))
    (hplain : ∀ x ∈ s :: repoSegs ++ ["manifests", t], Plain x) (hput : req.method = "PUT") :
    repoTarget req.path = some (String.intercalate "/" repoSegs, t) ∧
    (handle caps req).Wp fun es res => res = none → ∃ buf,
      (⟨.readBody, .ok buf⟩ : Ev D) ∈ es ∧
      ⟨.setHeader "Location" (req.path ++ "/" ++ (D.sha256 buf).toString), ()⟩ ∈ es ∧
      repoTarget (req.path ++ "/" ++ (D.sha256 buf).toString) =
        some (String.intercalate "/" (repoSegs ++ ["manifests"]), (D.sha256 buf).toString) ∧
      isManifest (req.path ++ "/" ++ (D.sha256 buf).toString) = (t == "manifests") := by
  have hparse := hpath ▸ repoTarget_manifestPath hplain
  refine ⟨hparse, (handle_put_location caps req hparse hput).mono fun es res h hres => ?_⟩
  obtain ⟨buf, hbody, hloc⟩ := h hres
  obtain ⟨hjoin, hrepo, hmanifest⟩ :=
    manifestPath_joinPath hpath hplain (Hash.plain_toString (D.sha256_valid buf))
  exact ⟨buf, hbody, hjoin ▸ hloc, hrepo, hmanifest⟩

/-- A push of a JSON document to `/v2/acme/app/manifests/v1` succeeds, and the `Location` it
answers names the repository `acme/app/manifests`, in a path `isManifest` rejects. -/
theorem push_location_names_other_repo_v1 :
    ∃ es, Exec false (.ok Json.null) (handle ⟨true, true⟩
        (⟨"PUT", "/v2/acme/app/manifests/v1", [], "text/plain", .ok Json.null⟩ : Request jsonDeps))
        State.empty es none ∧
      ⟨.setHeader "Location" ("/v2/acme/app/manifests/v1/" ++ (Hash.ofDigit '1').toString), ()⟩
        ∈ es ∧
      repoTarget ("/v2/acme/app/manifests/v1/" ++ (Hash.ofDigit '1').toString) =
        some ("acme/app/manifests", (Hash.ofDigit '1').toString) ∧
      isManifest ("/v2/acme/app/manifests/v1/" ++ (Hash.ofDigit '1').toString) = false := by
  have hrun : Exec false (.ok Json.null) (handle ⟨true, true⟩
      (⟨"PUT", "/v2/acme/app/manifests/v1", [], "text/plain", .ok Json.null⟩ : Request jsonDeps))
      State.empty _ none := Exec.of_respond rfl
  have hplain : ∀ x ∈ ["v2", "acme", "app", "manifests", "v1"], Plain x := by decide
  obtain ⟨-, hwp⟩ := @push_location_names_other_repo jsonDeps ⟨true, true⟩
    ⟨"PUT", "/v2/acme/app/manifests/v1", [], "text/plain", .ok Json.null⟩ "v2" "v1" ["acme", "app"]
    rfl hplain rfl
  obtain ⟨buf, hbody, hloc, hrepo, hmanifest⟩ := Prog.wp_iff.mp hwp _ _ hrun.1 rfl
  simp only [List.mem_cons, Sigma.mk.inj_iff, reduceCtorEq, false_and, heq_eq_eq, true_and,
    false_or] at hbody
  obtain rfl : buf = Json.null := Except.ok.inj (hbody.resolve_right (by simp))
  exact ⟨_, hrun, hloc, hrepo, hmanifest⟩

end DistrRegistry
