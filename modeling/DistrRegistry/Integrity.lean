/-
Content addressing in the running registry.  Whatever requests interleave:
* no record of the manifest store dangles, its digest resolving in its repository and its
  bytes held under that digest (`records_complete`);
* a manifest PUT never answers 200, and a manifest GET or HEAD answered 200 advertises, in its
  `Docker-Content-Digest` and `Content-Length`, the digest and the length of one sequence of
  bytes held by the blob store, the ones it sent for a GET (`pulled_headers_describe_bytes`),
  though a push may land between its read of the record and its read of the bytes;
* with no collision of the digest function, it sends exactly what the abstract registry sends
  for one committed push to the reference it names (`reads_serve_a_push`), never a mix of two.

The last two rest on two invariants of the requests in flight: every record read is the record
of a committed push (`Reachable.backed`), and every blob read or stat was answered with the
bytes, or the length of the bytes, of an entry of the blob store (`Holds`).
-/
import DistrRegistry.Runs

namespace DistrRegistry

open Prog

variable {D : Deps} {caps : BlobCaps}

/-! What a manifest response advertises. -/

/-- A call that can send status 200. -/
def Call.sends200 : Call D → Bool
  | .writeHeader code => code == 200
  | .write _ => true
  | .redirect _ _ _ code => code == 200
  | _ => false

theorem Response.status_foldl_ne {es : List (Ev D)} (h : ∀ e ∈ es, e.1.sends200 = false)
    {r : Response D} (hr : r.status ≠ some 200) : (es.foldl Response.apply r).status ≠ some 200 := by
  induction es generalizing r with
  | nil => exact hr
  | cons e es ih =>
    rw [List.forall_mem_cons] at h
    refine ih h.2 ?_
    obtain ⟨c, a⟩ := e
    have hcode : ∀ code : Nat, (code == 200) = false → some code ≠ some 200 :=
      fun code hc heq => by simp_all
    cases c
    case setHeader =>
      simp only [Response.apply]
      split <;> exact hr
    case writeHeader =>
      simp only [Response.apply]
      split
      exacts [hcode _ h.1, hr]
    case write => cases h.1
    case redirect =>
      rw [Response.status_redirect]
      split
      exacts [hcode _ h.1, hr]
    all_goals exact hr

theorem Response.status_of_ne {es : List (Ev D)} (h : ∀ e ∈ es, e.1.sends200 = false) :
    (Response.of es).status ≠ some 200 :=
  Response.status_foldl_ne h fun h => Option.noConfusion h

/-- A manifest PUT never answers 200: it sends 201 or nothing. -/
theorem handlePut_sends200 (req : Request D) (repo target : String) :
    (handlePut caps req repo target).Always fun e => e.1.sends200 = false :=
  handlePut_always (fun _ => rfl) (fun _ _ => rfl) (fun _ _ _ _ => rfl) (fun _ _ => rfl)
    (fun _ _ _ => rfl) fun _ => rfl

theorem handle_put_sends200 (req : Request D) (hput : req.method = "PUT") :
    (handle caps req).Always fun e => e.1.sends200 = false := by
  unfold handle
  split
  · exact fun r => r.elim
  · split_ifs with hget hhead
    · exact absurd (hput.symm.trans hget) (by decide)
    · exact absurd (hput.symm.trans hhead) (by decide)
    · exact authorizedReference_always (fun _ => rfl) (handlePut_sends200 _ _ _)

/-- `http.Redirect` sends no `Docker-Content-Digest`. -/
theorem Response.redirect_digest (method path url : String) (code : Nat) :
    (Response.of [(⟨.redirect method path url code, ()⟩ : Ev D)]).header "Docker-Content-Digest" =
      none := by
  simp only [Response.of, List.foldl, Response.apply, Option.isNone_none, if_true]
  split_ifs <;> rfl

/-- What the calls `es` of a manifest request with method `method` of `target` in `repo`
answered 200 with a digest send: the record `m` read for `target`, then, for a GET, the bytes
read under `m`'s digest, or, for a HEAD, their length the blob store stated, with `m`'s digest,
content type and that length, and the bytes as body for a GET only. -/
def Served (method repo target : String) (es : List (Ev D)) : Prop :=
  ∃ m, (⟨.manifestGet repo target, .ok m⟩ : Ev D) ∈ es ∧
    ((method = "GET" ∧ ∃ b, (⟨.blobGet repo m.blob.digest true, .ok (.ok b)⟩ : Ev D) ∈ es ∧
        Response.of es = ⟨some 200, [("Docker-Content-Digest", m.blob.digest.toString),
          ("Content-Type", m.contentType), ("Content-Length", toString (D.len b))], [b]⟩) ∨
      (method = "HEAD" ∧ ∃ l, (⟨.blobStat repo m.blob.digest, .ok l⟩ : Ev D) ∈ es ∧
        Response.of es = ⟨some 200, [("Docker-Content-Digest", m.blob.digest.toString),
          ("Content-Type", m.contentType), ("Content-Length", toString l)], []⟩))

/-- An authorization in front of the calls changes nothing they send. -/
theorem Served.authorized {method repo target : String} {es : List (Ev D)}
    (h : Served method repo target es) {repo' target' : String} {action : Action}
    {r : Option Err} : Served method repo target (⟨.authorizeReference repo' target' action, r⟩ :: es) := by
  obtain ⟨m, hget, ⟨hm, b, hmem, hresp⟩ | ⟨hm, l, hmem, hresp⟩⟩ := h
  · exact ⟨m, List.mem_cons_of_mem _ hget, .inl ⟨hm, b, List.mem_cons_of_mem _ hmem, hresp⟩⟩
  · exact ⟨m, List.mem_cons_of_mem _ hget, .inr ⟨hm, l, List.mem_cons_of_mem _ hmem, hresp⟩⟩

theorem handleGet_served (req : Request D) (repo target : String) :
    (handleGet req repo target).Wp fun es _ => ∀ s, (Response.of es).status = some 200 →
      (Response.of es).header "Docker-Content-Digest" = some s → Served "GET" repo target es := by
  simp only [handleGet, manifestGet, blobGet, auditPull, redirect, setHeader, writeHeader, write,
    call_bind, Prog.pure_bind, pure_eq, wp_call, wp_pure]
  rintro (e | m)
  · exact fun _ h => Option.noConfusion h
  · rintro (e | e | buf) <;> dsimp only
    · split
      · exact fun _ _ _ _ h => Option.noConfusion ((Response.redirect_digest (D := D) _ _ _ _).symm.trans h)
      · exact fun _ h => Option.noConfusion h
    · exact fun _ h => Option.noConfusion h
    · intro _ _ _ _ r
      cases r
      · exact fun _ _ _ _ => ⟨m, List.mem_cons_self _ _,
          .inl ⟨rfl, buf, List.mem_cons_of_mem _ (List.mem_cons_self _ _), rfl⟩⟩
      · exact fun _ _ _ => ⟨m, List.mem_cons_self _ _,
          .inl ⟨rfl, buf, List.mem_cons_of_mem _ (List.mem_cons_self _ _), rfl⟩⟩

theorem handleHead_served (repo target : String) :
    (handleHead (D := D) caps repo target).Wp fun es _ => ∀ s, (Response.of es).status = some 200 →
      (Response.of es).header "Docker-Content-Digest" = some s → Served "HEAD" repo target es := by
  simp only [handleHead, manifestGet, blobStat, auditPull, setHeader, writeHeader, call_bind,
    Prog.pure_bind, pure_eq, wp_call, wp_pure]
  rintro (e | m)
  · exact fun _ h => Option.noConfusion h
  · dsimp only
    split
    · exact fun _ h => Option.noConfusion h
    · rintro (e | l)
      · exact fun _ h => Option.noConfusion h
      · exact fun _ _ _ _ _ _ _ _ => ⟨m, List.mem_cons_self _ _,
          .inr ⟨rfl, l, List.mem_cons_of_mem _ (List.mem_cons_self _ _), rfl⟩⟩

/-- A manifest request answered 200 with a digest is a GET or a HEAD of the reference its path
names, and sends what `Served` says for its method. -/
theorem handle_served (req : Request D) :
    (handle caps req).Wp fun es _ => ∀ s, (Response.of es).status = some 200 →
      (Response.of es).header "Docker-Content-Digest" = some s →
        ∃ repo target, repoTarget req.path = some (repo, target) ∧
          Served req.method repo target es := by
  unfold handle
  split
  · exact fun r => r.elim
  · next repo target hpath =>
    have hauth : ∀ {action : Action} {next : Handler D (Option RegError)},
        next.Wp (fun es _ => ∀ s, (Response.of es).status = some 200 →
          (Response.of es).header "Docker-Content-Digest" = some s →
            Served req.method repo target es) →
        (authorizedReference repo target action next).Wp fun es _ => ∀ s,
          (Response.of es).status = some 200 →
          (Response.of es).header "Docker-Content-Digest" = some s →
            ∃ repo' target', repoTarget req.path = some (repo', target') ∧
              Served req.method repo' target' es := fun hnext =>
      authorizedReference_wp (hnext.mono fun _ _ h s h200 hs =>
        ⟨repo, target, hpath, (h s h200 hs).authorized⟩) fun _ _ h => Option.noConfusion h
    split_ifs with hget hhead
    · exact hauth (hget ▸ handleGet_served _ _ _)
    · exact hauth (hhead ▸ handleHead_served _ _)
    · exact hauth ((handlePut_sends200 _ _ _).wp.mono fun _ _ h _ h200 =>
        absurd h200 (Response.status_of_ne h))
    · exact fun _ h => Option.noConfusion h

section Integrity

variable {S : Set D.Body} {redirects : Bool}

/-- No record dangles.  In every reachable world, every record of the manifest store names a
digest that resolves in the record's repository, and the blob store holds bytes of that
digest there. -/
theorem records_complete {w : World D caps} (hw : Reachable S redirects w) {x : PutRequest}
    (hx : x ∈ w.store.manifests) :
    (∃ m, w.store.get x.repo x.manifest.blob.digest.toString = .ok m) ∧
      ∃ b, w.store.blob x.repo x.manifest.blob.digest = some b ∧
        D.sha256 b = x.manifest.blob.digest := by
  have hinv := hw.inv
  obtain ⟨p, hp, -, hrepo, hmanifest⟩ := hinv.mem_manifests hx
  obtain ⟨b, hb⟩ := Option.isSome_iff_exists.mp (hinv.pushes p hp).2.1
  rw [hrepo, hmanifest]
  exact ⟨hinv.get_of_mem hp (.inr rfl), b, hb, (hinv.blob_content hb).1⟩

/-- A record a request in flight read, as the committed pushes `pushes` back it: the record of
a committed push to that reference of the repository. -/
def Backed (pushes : List (Push D)) : Ev D → Prop
  | ⟨.manifestGet repo reference, .ok m⟩ => ∃ p ∈ pushes, p.repo = repo ∧
    (p.target = reference ∨ (D.sha256 p.body).toString = reference) ∧ p.manifest = m
  | _ => True

theorem Backed.mono {ps ps' : List (Push D)} {e : Ev D} (he : Backed ps e)
    (h : ∀ p ∈ ps, p ∈ ps') : Backed ps' e := by
  obtain ⟨c, r⟩ := e
  cases c <;> try trivial
  case manifestGet =>
    cases r
    · trivial
    · obtain ⟨p, hp, hrest⟩ := he
      exact ⟨p, h p hp, hrest⟩

/-- An answer the stores allow is backed by the committed pushes. -/
theorem World.Inv.backed {S : Set D.Body} {w : World D caps} (hw : w.Inv S)
    {body : Except Err D.Body} {e : Ev D} (hans : Answers redirects body w.store e) :
    Backed w.pushes e := by
  obtain ⟨c, r⟩ := e
  cases c <;> try trivial
  case manifestGet =>
    rcases r with _ | m
    · trivial
    · obtain ⟨p, hlookup, hm⟩ := hw.lookup_of_get (hans.symm : w.store.get _ _ = .ok m)
      obtain ⟨hp, hrepo, href⟩ := lookup_spec hlookup
      exact ⟨p, hp, hrepo, href, hm⟩

/-- Every record every request in flight has read is backed by the committed pushes. -/
theorem Reachable.backed {w : World D caps} (h : Reachable S redirects w) :
    ∀ t ∈ w.threads, ∀ e ∈ t.hist, Backed w.pushes e := by
  induction h with
  | init => exact nofun
  | @step w₀ _ hw₀ hstep ih =>
    cases hstep with
    | arrive =>
      rintro t (_ | ⟨_, ht⟩)
      · exact fun _ he => nomatch he
      · exact ih t ht
    | call i hi hprog r hans =>
      have hsub : ∀ p ∈ w₀.pushes, p ∈ commits w₀.threads[i].req ⟨_, r⟩ ++ w₀.pushes :=
        fun _ => List.mem_append_right _
      intro t ht e he
      rcases List.mem_or_eq_of_mem_set ht with ht | rfl
      · exact (ih t ht e he).mono hsub
      · rcases List.mem_append.mp he with he | he
        · exact (ih _ (List.getElem_mem hi) e he).mono hsub
        · rw [List.mem_singleton.mp he]
          exact (hw₀.inv.backed hans).mono hsub

/-- Pulled headers describe pulled bytes.  In every reachable world, however requests
interleave: a manifest PUT never answers 200; and every manifest request answered 200 that
advertises a `Docker-Content-Digest` is a GET or a HEAD and advertises with it a
`Content-Length`, and they are the digest and the length of one sequence of bytes the blob
store holds under that digest in the repository the path names: the body it sent, for a GET;
for a HEAD, it sends none. -/
theorem pulled_headers_describe_bytes {w : World D caps} (hw : Reachable S redirects w) :
    (∀ t ∈ w.threads, isManifest t.req.path = true → t.req.method = "PUT" →
      (Response.of t.hist).status ≠ some 200) ∧
    ∀ t ∈ w.threads, ∀ a, t.prog = .pure a → isManifest t.req.path = true →
      (Response.of t.hist).status = some 200 → ∀ s,
      (Response.of t.hist).header "Docker-Content-Digest" = some s →
      ∃ repo target b, repoTarget t.req.path = some (repo, target) ∧ s = (D.sha256 b).toString ∧
        (Response.of t.hist).header "Content-Length" = some (toString (D.len b)) ∧
        (repo, D.sha256 b, b) ∈ w.store.blobs ∧
        ((t.req.method = "GET" ∧ (Response.of t.hist).body = [b]) ∨
          (t.req.method = "HEAD" ∧ (Response.of t.hist).body = [])) := by
  have hinv := hw.inv
  refine ⟨fun t _ hmanifest hput => Response.status_of_ne ((handle_put_sends200 t.req hput).of_steps
    (route_eq_handle t.routed hmanifest ▸ t.steps)), fun t ht a hdone hmanifest h200 s hdigest => ?_⟩
  obtain ⟨repo, target, hpath, m, -, ⟨hget, b, hmem, hresp⟩ | ⟨hhead, l, hmem, hresp⟩⟩ :=
    wp_iff.mp (handle_served t.req) _ _ (route_eq_handle t.routed hmanifest ▸ hdone ▸ t.steps)
      s h200 hdigest
  · have hheld : (repo, m.blob.digest, b) ∈ w.store.blobs := (hinv.threads t ht).2.2 _ hmem
    obtain ⟨hd, -⟩ : m.blob.digest = D.sha256 b ∧ _ := hinv.blobs _ hheld
    rw [hresp] at hdigest ⊢
    cases hdigest
    exact ⟨repo, target, b, hpath, by rw [hd], rfl, hd ▸ hheld, .inl ⟨hget, rfl⟩⟩
  · obtain ⟨b, hheld, rfl⟩ := (hinv.threads t ht).2.2 _ hmem
    obtain ⟨hd, -⟩ : m.blob.digest = D.sha256 b ∧ _ := hinv.blobs _ hheld
    rw [hresp] at hdigest ⊢
    cases hdigest
    exact ⟨repo, target, b, hpath, by rw [hd], rfl, hd ▸ hheld, .inr ⟨hhead, rfl⟩⟩

/-- Reads serve a push.  In every reachable world, however requests interleave, with no
collision of the digest function on the bodies requests carry: every manifest request answered
200 that advertises a `Docker-Content-Digest` is a GET or a HEAD of a reference its path names,
and sends exactly what the abstract registry sends for one committed push to that reference
of the repository: all of it for a GET, all but the body for a HEAD. -/
theorem reads_serve_a_push (hS : Set.InjOn D.sha256 S) {w : World D caps}
    (hw : Reachable S redirects w) {t : Thread D caps} (ht : t ∈ w.threads) {a : Option RegError}
    (hdone : t.prog = .pure a) (hmanifest : isManifest t.req.path = true)
    (h200 : (Response.of t.hist).status = some 200) {s : String}
    (hdigest : (Response.of t.hist).header "Docker-Content-Digest" = some s) :
    ∃ repo target, repoTarget t.req.path = some (repo, target) ∧ ∃ p ∈ w.pushes,
      p.repo = repo ∧ (p.target = target ∨ (D.sha256 p.body).toString = target) ∧
      ((t.req.method = "GET" ∧ Response.of t.hist = p.pulled) ∨
        (t.req.method = "HEAD" ∧ Response.of t.hist = { p.pulled with body := [] })) := by
  have hinv := hw.inv
  obtain ⟨repo, target, hpath, m, hget, hread⟩ :=
    wp_iff.mp (handle_served t.req) _ _ (route_eq_handle t.routed hmanifest ▸ hdone ▸ t.steps)
      s h200 hdigest
  obtain ⟨p, hp, hrepo, href, rfl⟩ := hw.backed t ht _ hget
  have hpS : p.body ∈ S := (hinv.pushes p hp).1
  refine ⟨repo, target, hpath, p, hp, hrepo, href, ?_⟩
  rcases hread with ⟨hm, b, hmem, hresp⟩ | ⟨hm, l, hmem, hresp⟩
  · obtain ⟨hd, hbS⟩ : p.manifest.blob.digest = D.sha256 b ∧ b ∈ S :=
      hinv.blobs _ ((hinv.threads t ht).2.2 _ hmem)
    cases hS hbS hpS hd.symm
    exact .inl ⟨hm, hresp⟩
  · obtain ⟨b, hheld, rfl⟩ := (hinv.threads t ht).2.2 _ hmem
    obtain ⟨hd, hbS⟩ : p.manifest.blob.digest = D.sha256 b ∧ b ∈ S := hinv.blobs _ hheld
    cases hS hbS hpS hd.symm
    exact .inr ⟨hm, hresp⟩

end Integrity

/-- A push of `null` to `acme/app:v1`, then a GET of `v1` run to the end: it answers 200 with
the pushed body. -/
theorem get_after_push :
    ∃ (w : World jsonDeps ⟨true, true⟩) (t : Thread jsonDeps ⟨true, true⟩),
      Reachable ({Json.null} : Set Json) false w ∧ t ∈ w.threads ∧ t.prog = .pure none ∧
      isManifest t.req.path = true ∧ t.req.method = "GET" ∧
      Response.of t.hist = ⟨some 200, [("Docker-Content-Digest", (Hash.ofDigit '1').toString),
        ("Content-Type", "text/plain"), ("Content-Length", "1")], [Json.null]⟩ := by
  have hpush : Exec false (.ok Json.null) (handle ⟨true, true⟩
      (⟨"PUT", "/v2/acme/app/manifests/v1", [], "text/plain", .ok Json.null⟩ : Request jsonDeps))
      State.empty _ none := Exec.of_respond rfl
  obtain ⟨w₁, hw₁, hstore, -⟩ := (@Reachable.init jsonDeps ⟨true, true⟩ ({Json.null} : Set Json)
    false).arrive_run ⟨"PUT", "/v2/acme/app/manifests/v1", [], "text/plain", .ok Json.null⟩ rfl
    (fun _ hb => (Except.ok.inj hb).symm) hpush
  have hget : Exec false (.ok Json.null) (handle ⟨true, true⟩
      (⟨"GET", "/v2/acme/app/manifests/v1", [], "", .ok Json.null⟩ : Request jsonDeps))
      w₁.store _ none := Exec.of_respond (by rw [hstore]; rfl)
  obtain ⟨w₂, hw₂, -, t, ht, hreq, hdone, hhist⟩ := (hw₁.step (.arrive w₁
    ⟨"GET", "/v2/acme/app/manifests/v1", [], "", .ok Json.null⟩ rfl
    (fun _ hb => (Except.ok.inj hb).symm))).finish_thread 0 (by simp) rfl hget.1 hget.2
  exact ⟨w₂, t, hw₂, ht, hdone, by rw [hreq]; rfl, by rw [hreq]; rfl, by rw [hhist]; rfl⟩

/-- The world of `get_after_push`: a PUT answered 201 and a GET answered 200. -/
theorem pulled_headers_describe_bytes_v1 :
    ∃ w : World jsonDeps ⟨true, true⟩, Reachable ({Json.null} : Set Json) false w ∧
      (∃ t ∈ w.threads, t.prog = .pure none ∧ isManifest t.req.path = true ∧ t.req.method = "GET" ∧
        (Response.of t.hist).status = some 200 ∧
        (Response.of t.hist).header "Docker-Content-Digest" = some (Hash.ofDigit '1').toString) ∧
      (∀ t ∈ w.threads, isManifest t.req.path = true → t.req.method = "PUT" →
        (Response.of t.hist).status ≠ some 200) ∧
      ∀ t ∈ w.threads, ∀ a, t.prog = .pure a → isManifest t.req.path = true →
        (Response.of t.hist).status = some 200 → ∀ s,
        (Response.of t.hist).header "Docker-Content-Digest" = some s →
        ∃ repo target b, repoTarget t.req.path = some (repo, target) ∧ s = (jsonDeps.sha256 b).toString ∧
          (Response.of t.hist).header "Content-Length" = some (toString (jsonDeps.len b)) ∧
          (repo, jsonDeps.sha256 b, b) ∈ w.store.blobs ∧
          ((t.req.method = "GET" ∧ (Response.of t.hist).body = [b]) ∨
            (t.req.method = "HEAD" ∧ (Response.of t.hist).body = [])) := by
  obtain ⟨w, t, hw, ht, hdone, hpath, hget, hresp⟩ := get_after_push
  exact ⟨w, hw, ⟨t, ht, hdone, hpath, hget, by rw [hresp], by rw [hresp]; rfl⟩,
    pulled_headers_describe_bytes hw⟩

theorem reads_serve_a_push_v1 :
    ∃ (w : World jsonDeps ⟨true, true⟩) (t : Thread jsonDeps ⟨true, true⟩) (a : Option RegError),
      Set.InjOn jsonDeps.sha256 ({Json.null} : Set Json) ∧
      Reachable ({Json.null} : Set Json) false w ∧ t ∈ w.threads ∧ t.prog = .pure a ∧
      isManifest t.req.path = true ∧ (Response.of t.hist).status = some 200 ∧
      (Response.of t.hist).header "Docker-Content-Digest" = some (Hash.ofDigit '1').toString ∧
      ∃ repo target, repoTarget t.req.path = some (repo, target) ∧ ∃ p ∈ w.pushes,
        p.repo = repo ∧ (p.target = target ∨ (jsonDeps.sha256 p.body).toString = target) ∧
        ((t.req.method = "GET" ∧ Response.of t.hist = p.pulled) ∨
          (t.req.method = "HEAD" ∧ Response.of t.hist = { p.pulled with body := [] })) := by
  obtain ⟨w, t, hw, ht, hdone, hpath, -, hresp⟩ := get_after_push
  have h200 : (Response.of t.hist).status = some 200 := by rw [hresp]
  have hdigest : (Response.of t.hist).header "Docker-Content-Digest" =
      some (Hash.ofDigit '1').toString := by rw [hresp]; rfl
  exact ⟨w, t, _, Set.injOn_singleton _ _, hw, ht, hdone, hpath, h200, hdigest,
    reads_serve_a_push (Set.injOn_singleton _ _) hw ht hdone hpath h200 hdigest⟩

/-- A push of `null` to `acme/app:v1`: its records are complete. -/
theorem records_complete_v1 :
    ∃ (w : World jsonDeps ⟨true, true⟩) (x : PutRequest), Reachable ({Json.null} : Set Json) false w ∧
      x ∈ w.store.manifests ∧
      (∃ m, w.store.get x.repo x.manifest.blob.digest.toString = .ok m) ∧
      ∃ b, w.store.blob x.repo x.manifest.blob.digest = some b ∧
        jsonDeps.sha256 b = x.manifest.blob.digest := by
  have hpush : Exec false (.ok Json.null) (handle ⟨true, true⟩
      (⟨"PUT", "/v2/acme/app/manifests/v1", [], "text/plain", .ok Json.null⟩ : Request jsonDeps))
      State.empty _ none := Exec.of_respond rfl
  obtain ⟨w, hw, hstore, -⟩ := (@Reachable.init jsonDeps ⟨true, true⟩ ({Json.null} : Set Json)
    false).arrive_run ⟨"PUT", "/v2/acme/app/manifests/v1", [], "text/plain", .ok Json.null⟩ rfl
    (fun _ hb => (Except.ok.inj hb).symm) hpush
  have hx : (⟨"acme/app", "v1", ⟨"text/plain", ⟨Hash.ofDigit '1', 1⟩⟩, []⟩ : PutRequest) ∈
      w.store.manifests := by
    rw [hstore]
    exact List.mem_cons_self _ _
  exact ⟨w, _, hw, hx, records_complete hw hx⟩

end DistrRegistry
