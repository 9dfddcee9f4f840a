/-
Runs of the registry.  What one run of a handler commits (`route_commits`: the request's push,
exactly when it answers a manifest PUT with success), and from it what every interleaving of
requests does to the stores: only pushes write (`stores_written_only_by_push`); nothing is
ever lost along a run (`nothing_lost`); a push the registry acknowledged is committed and both
of its references resolve (`acknowledged_push_committed`); and a push followed by a pull
returns the pushed body under its target and its digest (`push_then_pull`).  Every record in
the store was written by a PUT to its repository after the authorizer granted it
(`records_authorized`), and a target re-pointed by a later push leaves the older digest
addressable (`tag_repoint`).
-/
import DistrRegistry.Access
import DistrRegistry.Registry
import DistrRegistry.Router

namespace DistrRegistry

open Prog

variable {D : Deps} {caps : BlobCaps}

/-! What a run of a handler commits. -/

theorem flatMap_commits_of_writes_false {req : Request D} {es : List (Ev D)}
    (h : ∀ e ∈ es, e.1.writes = false) : es.flatMap (commits req) = [] := by
  rw [List.flatMap_eq_nil_iff]
  intro e he
  simp [commits, committed_of_writes_false (h e he)]

/-- A successful `handlePutBuffer` commits the request's push once; a failed one commits
nothing. -/
theorem handlePutBuffer_commits (req : Request D) (repo target : String) (buf : D.Body) :
    (handlePutBuffer caps req repo target buf).Wp fun es res =>
      es.flatMap (commits req) = if res = none then req.push.toList else [] := by
  unfold handlePutBuffer
  rw [wp_bind]
  refine (putDependencies_writes repo _ buf).wp.mono fun es deps hq => ?_
  simp only [List.flatMap_append, flatMap_commits_of_writes_false hq, List.nil_append]
  rcases deps with e | blobs
  · rfl
  · dsimp only
    split
    · rfl
    · split
      · rfl
      · simp only [blobPut, runTx, setHeader, writeHeader, call_bind, Prog.pure_bind, pure_eq,
          wp_call, wp_pure]
        rintro (_ | e)
        · rintro (_ | e)
          · intro _ _ _ _
            simp [commits, committed]
          · simp [commits, committed]
        · rfl

theorem handle_commits (req : Request D) :
    (handle caps req).Wp fun es res =>
      es.flatMap (commits req) = if res = none ∧ req.method = "PUT" then req.push.toList else [] := by
  have hread : ∀ {q : Handler D (Option RegError)}, q.Always (fun e => e.1.writes = false) →
      req.method ≠ "PUT" → q.Wp fun es res =>
        es.flatMap (commits req) = if res = none ∧ req.method = "PUT" then req.push.toList else [] :=
    fun hq hput => hq.wp.mono fun _ _ h => by
      rw [flatMap_commits_of_writes_false h, if_neg (fun h => hput h.2)]
  unfold handle
  split
  · exact fun r => r.elim
  · split_ifs with hget hhead hput
    · exact hread (authorizedReference_always (fun _ => rfl) (handleGet_writes _ _ _))
        (by rw [hget]; decide)
    · exact hread (authorizedReference_always (fun _ => rfl) (handleHead_writes _ _ _))
        (by rw [hhead]; decide)
    · simp only [authorizedReference, authorizeReference, handlePut, readBody, call_bind,
        Prog.pure_bind, pure_eq, wp_call, wp_pure, hput, and_true]
      rintro (_ | e)
      · rintro (e | buf)
        · rfl
        · exact (handlePutBuffer_commits req _ _ buf).mono fun es res h => by
            simpa [commits, committed] using h
      · rfl
    · exact (if_neg fun h : some regErrMethodUnknown = none ∧ _ => nomatch h.1).symm

/-- A run of a routed handler commits the request's push exactly when it answers a manifest
PUT with success, and commits nothing otherwise. -/
theorem route_commits {req : Request D} {p : Handler D (Option RegError)}
    (h : route caps req = some p) :
    p.Wp fun es res => es.flatMap (commits req) =
      if res = none ∧ isManifest req.path = true ∧ req.method = "PUT" then req.push.toList
      else [] := by
  by_cases hm : isManifest req.path = true
  · obtain rfl := route_eq_handle h hm
    simpa only [hm, true_and] using @handle_commits D caps req
  · refine (route_writes h (fun hput => hm hput.1)).wp.mono fun _ _ hq => ?_
    rw [flatMap_commits_of_writes_false hq, if_neg (fun h => hm h.2.1)]

/-- A successful PUT has read its body. -/
theorem handle_reads_body (req : Request D) :
    (handle caps req).Wp fun es res => res = none → req.method = "PUT" →
      ∃ b, (⟨.readBody, .ok b⟩ : Ev D) ∈ es := by
  unfold handle
  split
  · exact fun r => r.elim
  · split_ifs with hget hhead hput
    · exact wp_of_forall fun _ _ _ h => absurd (hget.symm.trans h) (by decide)
    · exact wp_of_forall fun _ _ _ h => absurd (hhead.symm.trans h) (by decide)
    · simp only [authorizedReference, authorizeReference, handlePut, readBody, call_bind,
        Prog.pure_bind, pure_eq, wp_call, wp_pure]
      rintro (_ | e)
      · rintro (e | buf)
        · nofun
        · exact wp_of_forall fun _ _ _ _ => ⟨buf, List.mem_cons_of_mem _ (List.mem_cons_self _ _)⟩
      · nofun
    · nofun

/-- A manifest PUT that answers success, having read the request's own body, commits its push
once. -/
theorem push_committed_once {req : Request D} {p : Handler D (Option RegError)}
    (hroute : route caps req = some p) (hmanifest : isManifest req.path = true)
    (hput : req.method = "PUT") {es : List (Ev D)} (hsteps : p.Steps es (.pure none))
    (hreads : ∀ r, (⟨.readBody, r⟩ : Ev D) ∈ es → r = req.body) :
    ∃ q, req.push = some q ∧ es.flatMap (commits req) = [q] := by
  have hcommits := wp_iff.mp (route_commits hroute) _ _ hsteps
  rw [if_pos ⟨rfl, hmanifest, hput⟩] at hcommits
  obtain ⟨b, hb⟩ :=
    wp_iff.mp (handle_reads_body req) _ _ (route_eq_handle hroute hmanifest ▸ hsteps) rfl hput
  obtain ⟨repo, target, hpath⟩ := repoTarget_of_isRoute hmanifest
  have hq := Request.push_eq (p := ⟨repo, target, req.contentType, b⟩) hpath rfl (hreads _ hb).symm
  exact ⟨_, hq, by rw [hcommits, hq]; rfl⟩

section Runs

variable {S : Set D.Body} {redirects : Bool}

/-! Runs of the system. -/

/-- A reachable world stays reachable along a run. -/
theorem Reachable.run {w w' : World D caps} (hw : Reachable S redirects w)
    (hrun : Relation.ReflTransGen (Step S redirects) w w') : Reachable S redirects w' := by
  induction hrun with
  | refl => exact hw
  | tail _ hstep ih => exact ih.step hstep

/-- A step only adds: to the stores, and to the log of committed pushes. -/
theorem Step.extends {w w' : World D caps} (h : Step S redirects w w') :
    w.store.Extends w'.store ∧ ∃ ps, w'.pushes = ps ++ w.pushes := by
  cases h with
  | arrive => exact ⟨State.Extends.refl _, [], rfl⟩
  | call => exact ⟨State.extends_apply _ _, _, rfl⟩

theorem run_extends {w w' : World D caps} (hrun : Relation.ReflTransGen (Step S redirects) w w') :
    w.store.Extends w'.store ∧ ∃ ps, w'.pushes = ps ++ w.pushes := by
  induction hrun with
  | refl => exact ⟨State.Extends.refl _, [], rfl⟩
  | tail _ hstep ih =>
    obtain ⟨hσ, ps, hps⟩ := ih
    obtain ⟨hσ', ps', hps'⟩ := hstep.extends
    exact ⟨hσ.trans hσ', ps' ++ ps, by rw [hps', hps, List.append_assoc]⟩

/-- A step keeps every request in flight, with the calls it has made. -/
theorem Step.thread_mem {w w' : World D caps} (h : Step S redirects w w') {t : Thread D caps}
    (ht : t ∈ w.threads) : ∃ t' ∈ w'.threads, t'.req = t.req ∧ ∀ e ∈ t.hist, e ∈ t'.hist := by
  cases h with
  | arrive => exact ⟨t, List.mem_cons_of_mem _ ht, rfl, fun _ => id⟩
  | call i hi hprog r =>
    obtain ⟨j, hj, rfl⟩ := List.getElem_of_mem ht
    by_cases hij : i = j
    · subst hij
      exact ⟨_, List.mem_set _ _ hi _, rfl, fun _ he => List.mem_append_left _ he⟩
    · refine ⟨w.threads[j], ?_, rfl, fun _ => id⟩
      rw [← List.getElem_set_ne hij (by simpa using hj)]
      exact List.getElem_mem _

/-- The call a request in flight makes next, answered, is a call of a run of its handler. -/
theorem Thread.steps_answer (t : Thread D caps) {c : Call D}
    {k : c.Ret → Handler D (Option RegError)} (hprog : t.prog = .call c k) (r : c.Ret) :
    t.handler.Steps (t.hist ++ [⟨c, r⟩]) (k r) :=
  (hprog ▸ t.steps).snoc r

/-- A run in which every request so far ran a handler that never writes leaves both stores as
empty as at the start. -/
theorem Reachable.unwritten {P : Request D → Prop}
    (hread : ∀ {req p}, route caps req = some p → P req → p.Always fun e => e.1.writes = false)
    {w : World D caps} (hw : Reachable S redirects w) (hno : ∀ t ∈ w.threads, P t.req) :
    w.store = State.empty ∧ w.pushes = [] := by
  induction hw with
  | init => exact ⟨rfl, rfl⟩
  | @step w₀ _ _ hstep ih =>
    obtain ⟨hσ, hps⟩ := ih fun t ht => by
      obtain ⟨t', ht', hreq, -⟩ := hstep.thread_mem ht
      exact hreq ▸ hno t' ht'
    cases hstep with
    | arrive => exact ⟨hσ, hps⟩
    | call i hi hprog r =>
      have hwrites := (hread w₀.threads[i].routed (hno (w₀.threads[i].answer hprog r)
        (List.mem_set _ _ hi _))).of_steps
        (w₀.threads[i].steps_answer hprog r) ⟨_, r⟩ (List.mem_append_right _ (List.mem_singleton_self _))
      refine ⟨(State.apply_of_writes_false hwrites).trans hσ, ?_⟩
      simp [commits, committed_of_writes_false hwrites, hps]

/-- Only pushes write.  In every reachable world in which no request so far was a manifest
PUT, whatever GETs, HEADs, listings and referrer queries ran and however they interleaved, the
stores are as empty as at the start and no push has committed. -/
theorem stores_written_only_by_push {w : World D caps} (hw : Reachable S redirects w)
    (hno : ∀ t ∈ w.threads, ¬ (isManifest t.req.path = true ∧ t.req.method = "PUT")) :
    w.store = State.empty ∧ w.pushes = [] :=
  hw.unwritten (P := fun req => ¬ (isManifest req.path = true ∧ req.method = "PUT"))
    (fun h hpush => route_writes h hpush) hno

/-- A GET of `acme/app:v1` and then a PUT to its tags listing, each run to its answer on empty
stores: no manifest PUT, so the stores stay empty. -/
theorem stores_written_only_by_push_get_tags :
    ∃ w : World jsonDeps ⟨true, true⟩, @Reachable jsonDeps ⟨true, true⟩ {Json.null} false w ∧
      w.threads.map Thread.req = [⟨"PUT", "/v2/acme/app/tags/list", [], "", .ok Json.null⟩,
        pullOf "v1"] ∧
      (∀ t ∈ w.threads, ¬ (isManifest t.req.path = true ∧ t.req.method = "PUT")) ∧
      w.store = State.empty ∧ w.pushes = [] := by
  have hget : Exec false (.ok Json.null) (handle ⟨true, true⟩ (pullOf "v1")) State.empty _ _ :=
    Exec.of_respond rfl
  obtain ⟨w₁, hw₁, hstore₁, -, hreqs₁, -⟩ := (@Reachable.init jsonDeps ⟨true, true⟩ {Json.null}
    false).arrive_run (pullOf "v1") rfl (fun _ hb => (Except.ok.inj hb).symm) hget
  have htags : Exec false (.ok Json.null) (handleTags (D := jsonDeps)
      ⟨"PUT", "/v2/acme/app/tags/list", [], "", .ok Json.null⟩) w₁.store _ _ :=
    Exec.of_respond (by rw [hstore₁]; rfl)
  obtain ⟨w, hw, -, -, hreqs, -⟩ := hw₁.arrive_run ⟨"PUT", "/v2/acme/app/tags/list", [], "", .ok Json.null⟩
    rfl (fun _ hb => (Except.ok.inj hb).symm) htags
  have hall : ∀ t ∈ w.threads, ¬ (isManifest t.req.path = true ∧ t.req.method = "PUT") := by
    intro t ht
    have hmem : t.req ∈ w.threads.map Thread.req := List.mem_map_of_mem _ ht
    simp only [hreqs, hreqs₁, World.empty, List.map_nil, List.mem_cons, List.not_mem_nil,
      or_false] at hmem
    rcases hmem with h | h <;> rw [h] <;> decide
  exact ⟨w, hw, by rw [hreqs, hreqs₁]; rfl, hall, stores_written_only_by_push hw hall⟩

/-- Nothing is lost.  Along every run from a reachable world, with no collision of the digest
function on the bodies requests carry: a reference that resolves keeps resolving, the bytes
held under a digest stay those bytes, and a committed push stays committed. -/
theorem nothing_lost (hS : Set.InjOn D.sha256 S) {w w' : World D caps}
    (hw : Reachable S redirects w) (hrun : Relation.ReflTransGen (Step S redirects) w w') :
    (∀ repo reference m, w.store.get repo reference = .ok m →
      ∃ m', w'.store.get repo reference = .ok m') ∧
    (∀ repo digest b, w.store.blob repo digest = some b → w'.store.blob repo digest = some b) ∧
    ∀ p ∈ w.pushes, p ∈ w'.pushes := by
  obtain ⟨hσ, ps, hps⟩ := run_extends hrun
  refine ⟨fun repo reference m hget => ?_, fun repo digest b hb => ?_,
    fun p hp => hps ▸ List.mem_append_right _ hp⟩
  · obtain ⟨x, hx⟩ := Option.isSome_iff_exists.mp (hσ.find_isSome (State.find_isSome_of_get hget))
    exact ⟨x.manifest, by simp [State.get, hx]⟩
  · obtain ⟨b', hb'⟩ := Option.isSome_iff_exists.mp (hσ.blob_isSome (Option.isSome_iff_exists.mpr ⟨b, hb⟩))
    obtain ⟨hd, hbS⟩ := hw.inv.blob_content hb
    obtain ⟨hd', hbS'⟩ := (hw.run hrun).inv.blob_content hb'
    rw [hb', hS hbS' hbS (hd'.trans hd.symm)]

/-- `null` pushed to `acme/app:v1`, then `{"v": null}` pushed to the same tag: the tag now names
the second body, and nothing the first push stored is lost. -/
theorem nothing_lost_repush :
    ∃ w w' : World jsonDeps ⟨true, true⟩,
      Set.InjOn jsonDeps.sha256 ({Json.null, .object [("v", .null)]} : Set Json) ∧
      Reachable (D := jsonDeps) ({Json.null, .object [("v", .null)]} : Set Json) false w ∧
      Relation.ReflTransGen (Step ({Json.null, .object [("v", .null)]} : Set Json) false) w w' ∧
      w.pushes.length = 1 ∧ w'.pushes.length = 2 ∧
      ((∀ repo reference m, w.store.get repo reference = .ok m →
        ∃ m', w'.store.get repo reference = .ok m') ∧
      (∀ repo digest b, w.store.blob repo digest = some b → w'.store.blob repo digest = some b) ∧
      ∀ p ∈ w.pushes, p ∈ w'.pushes) := by
  have hS : Set.InjOn jsonDeps.sha256 ({Json.null, .object [("v", .null)]} : Set Json) := by
    rintro x (rfl | rfl) y (rfl | rfl) h
    all_goals first | rfl | exact absurd h (by decide)
  have hfirst : Exec false (.ok Json.null) (handle ⟨true, true⟩ (pushOf "v1" .null)) State.empty _ none :=
    Exec.of_respond rfl
  obtain ⟨w, hw, hstore, hpushes, -⟩ := (@Reachable.init jsonDeps ⟨true, true⟩
    ({Json.null, .object [("v", .null)]} : Set Json) false).arrive_run
    (pushOf "v1" .null) rfl (fun _ hb => .inl (Except.ok.inj hb).symm) hfirst
  have hsecond : Exec false (.ok (Json.object [("v", .null)]))
      (handle ⟨true, true⟩ (pushOf "v1" (.object [("v", .null)]))) w.store _ none :=
    Exec.of_respond (by rw [hstore]; rfl)
  obtain ⟨w', -, -, hpushes', -, hrun⟩ := hw.arrive_run (pushOf "v1" (.object [("v", .null)])) rfl
    (fun _ hb => .inr (Except.ok.inj hb).symm) hsecond
  exact ⟨w, w', hS, hw, hrun, by rw [hpushes]; rfl, by rw [hpushes', hpushes]; rfl,
    nothing_lost hS hw hrun⟩

/-- Every push a request has committed is in the log of committed pushes. -/
def World.Logged (w : World D caps) : Prop :=
  ∀ t ∈ w.threads, ∀ e ∈ t.hist, ∀ p ∈ commits t.req e, p ∈ w.pushes

theorem Reachable.logged {w : World D caps} (h : Reachable S redirects w) : w.Logged := by
  induction h with
  | init => exact nofun
  | step _ hstep ih =>
    cases hstep with
    | arrive =>
      rintro t (_ | ⟨_, ht⟩)
      · exact nofun
      · exact ih t ht
    | call i hi hprog r =>
      intro t ht e he p hp
      rcases List.mem_or_eq_of_mem_set ht with ht | rfl
      · exact List.mem_append_right _ (ih t ht e he p hp)
      · rcases List.mem_append.mp he with he | he
        · exact List.mem_append_right _ (ih _ (List.getElem_mem hi) e he p hp)
        · rw [List.mem_singleton.mp he] at hp
          exact List.mem_append_left _ hp

/-- A committed push names a record under its target and under its digest. -/
theorem World.Inv.get_of_mem {w : World D caps} (hw : w.Inv S) {p : Push D} (hp : p ∈ w.pushes)
    {reference : String} (href : p.target = reference ∨ (D.sha256 p.body).toString = reference) :
    ∃ m, w.store.get p.repo reference = .ok m := by
  have hfound : (lookup w.pushes p.repo reference).isSome :=
    List.find?_isSome.mpr ⟨p, hp, by rcases href with h | h <;> simp [h]⟩
  obtain ⟨q, hq⟩ := Option.isSome_iff_exists.mp hfound
  exact ⟨_, hw.get_of_lookup hq⟩

/-- A request in flight that runs to the end on its own stays in the world it reaches, finished
with its result and with the calls of its run after those it had made. -/
theorem Reachable.finish_thread {w : World D caps} (hw : Reachable S redirects w) (i : Nat)
    (hi : i < w.threads.length) {q : Handler D (Option RegError)} (hq : w.threads[i].prog = q)
    {es : List (Ev D)} {a : Option RegError} (hrun : q.Steps es (.pure a))
    (hall : Allowed (Answers redirects w.threads[i].req.body) State.apply w.store es) :
    ∃ w' : World D caps, Reachable S redirects w' ∧ Relation.ReflTransGen (Step S redirects) w w' ∧
      ∃ t ∈ w'.threads, t.req = w.threads[i].req ∧ t.prog = .pure a ∧
        t.hist = w.threads[i].hist ++ es := by
  induction es generalizing w q with
  | nil =>
    cases hrun
    exact ⟨w, hw, .refl, _, List.getElem_mem hi, rfl, hq, (List.append_nil _).symm⟩
  | cons e es ih =>
    cases hrun with
    | step r hrest =>
      have hstep : Step S redirects w _ := .call w i hi hq r hall.1
      obtain ⟨w', hw', hrun', t, ht, hreq, hdone, hhist⟩ := ih (hw.step hstep)
        (by simpa using hi) (by simp [Thread.answer]) hrest (by simpa [Thread.answer] using hall.2)
      exact ⟨w', hw', .head hstep hrun', t, ht, by simpa [Thread.answer] using hreq, hdone,
        by simpa [Thread.answer] using hhist⟩

/-- An acknowledged push is committed.  In every reachable world, every manifest PUT that has
answered with success has its push in the log of committed pushes, and both its target and its
digest resolve in its repository. -/
theorem acknowledged_push_committed {w : World D caps} (hw : Reachable S redirects w)
    {t : Thread D caps} (ht : t ∈ w.threads) (hdone : t.prog = .pure none)
    (hmanifest : isManifest t.req.path = true) (hput : t.req.method = "PUT") :
    ∃ p, t.req.push = some p ∧ p ∈ w.pushes ∧ (∃ m, w.store.get p.repo p.target = .ok m) ∧
      ∃ m, w.store.get p.repo (D.sha256 p.body).toString = .ok m := by
  have hinv := hw.inv
  obtain ⟨q, hq, hcommits⟩ :=
    push_committed_once t.routed hmanifest hput (hdone ▸ t.steps) (hinv.threads t ht).2.1
  obtain ⟨e, he, hpe⟩ := List.mem_flatMap.mp
    (hcommits ▸ List.mem_singleton_self q : q ∈ t.hist.flatMap (commits t.req))
  have hmem := hw.logged t ht e he _ hpe
  exact ⟨q, hq, hmem, hinv.get_of_mem hmem (.inl rfl), hinv.get_of_mem hmem (.inr rfl)⟩

/-- A push of `null` to `acme/app:v1`, run to the end: it is committed, and both of its
references resolve. -/
theorem acknowledged_push_committed_v1 :
    ∃ (w : World jsonDeps ⟨true, true⟩) (t : Thread jsonDeps ⟨true, true⟩),
      Reachable ({Json.null} : Set Json) false w ∧ t ∈ w.threads ∧ t.prog = .pure none ∧
      isManifest t.req.path = true ∧ t.req.method = "PUT" ∧
      ∃ p, t.req.push = some p ∧ p ∈ w.pushes ∧ (∃ m, w.store.get p.repo p.target = .ok m) ∧
        ∃ m, w.store.get p.repo (jsonDeps.sha256 p.body).toString = .ok m := by
  have hexec : Exec false (.ok Json.null) (handle ⟨true, true⟩
      (⟨"PUT", "/v2/acme/app/manifests/v1", [], "text/plain", .ok Json.null⟩ : Request jsonDeps))
      State.empty _ none := Exec.of_respond rfl
  obtain ⟨w, hw, -, t, ht, hreq, hdone, -⟩ := (Reachable.init.step (.arrive World.empty
    ⟨"PUT", "/v2/acme/app/manifests/v1", [], "text/plain", .ok Json.null⟩ rfl
    (fun _ hb => (Except.ok.inj hb).symm))).finish_thread 0 (by simp) rfl hexec.1 hexec.2
  have hpath : isManifest t.req.path = true := by rw [hreq]; decide
  have hput : t.req.method = "PUT" := by rw [hreq]; rfl
  exact ⟨w, t, hw, ht, hdone, hpath, hput, acknowledged_push_committed hw ht hdone hpath hput⟩

/-- A registry whose blob handler is not a `BlobPutHandler` is read-only: in every reachable
world, whatever requests ran, manifest PUTs included, the stores are as empty as at the start
and no push has committed; and every manifest PUT that has returned answered an error. -/
theorem read_only_without_blob_put (hcaps : caps.put = false) {w : World D caps}
    (hw : Reachable S redirects w) :
    w.store = State.empty ∧ w.pushes = [] ∧
      ∀ t ∈ w.threads, isManifest t.req.path = true → t.req.method = "PUT" → t.prog ≠ .pure none := by
  obtain ⟨hσ, hps⟩ :=
    hw.unwritten (P := fun _ => True) (fun h _ => route_writes_of_no_put hcaps h) fun _ _ => trivial
  refine ⟨hσ, hps, fun t ht hmanifest hput hdone => ?_⟩
  obtain ⟨q, -, hcommits⟩ :=
    push_committed_once t.routed hmanifest hput (hdone ▸ t.steps) (hw.inv.threads t ht).2.1
  rw [flatMap_commits_of_writes_false ((route_writes_of_no_put hcaps t.routed).of_steps t.steps)]
    at hcommits
  cases hcommits

/-- A push of `null` to `acme/app:v1` without a `BlobPutHandler`, run to the end: it is
refused, and the stores stay empty. -/
theorem read_only_without_blob_put_push :
    ∃ (w : World jsonDeps ⟨true, false⟩) (t : Thread jsonDeps ⟨true, false⟩),
      Reachable ({Json.null} : Set Json) false w ∧ t ∈ w.threads ∧ t.req.method = "PUT" ∧
      t.prog = .pure (some (regErrInternal (.other "blob handler is not a BlobPutHandler"))) ∧
      w.store = State.empty ∧ w.pushes = [] ∧
      ∀ t ∈ w.threads, isManifest t.req.path = true → t.req.method = "PUT" → t.prog ≠ .pure none := by
  have hexec : Exec false (.ok Json.null) (handle ⟨true, false⟩
      (⟨"PUT", "/v2/acme/app/manifests/v1", [], "text/plain", .ok Json.null⟩ : Request jsonDeps))
      State.empty _ (some (regErrInternal (.other "blob handler is not a BlobPutHandler"))) :=
    Exec.of_respond rfl
  obtain ⟨w, hw, -, t, ht, hreq, hdone, -⟩ := (Reachable.init.step (.arrive World.empty
    ⟨"PUT", "/v2/acme/app/manifests/v1", [], "text/plain", .ok Json.null⟩ rfl
    (fun _ hb => (Except.ok.inj hb).symm))).finish_thread 0 (by simp) rfl hexec.1 hexec.2
  exact ⟨w, t, hw, ht, by rw [hreq]; rfl, hdone, read_only_without_blob_put rfl hw⟩

/-- The path of a request with a push names the push's repository and target. -/
theorem Request.path_of_push {req : Request D} {p : Push D} (h : req.push = some p) :
    repoTarget req.path = some (p.repo, p.target) := by
  unfold Request.push at h
  split at h
  · cases h
    assumption
  · cases h

/-- A call that commits a push is the transaction, answered `nil`, of the request's push. -/
theorem mem_commits {req : Request D} {e : Ev D} {p : Push D} (h : p ∈ commits req e) :
    req.push = some p ∧ ∃ puts, e = ⟨.runTx puts, none⟩ := by
  obtain ⟨c, r⟩ := e
  unfold commits at h
  split at h
  · rename_i hc
    refine ⟨Option.mem_toList.mp h, ?_⟩
    cases c <;> try cases hc
    cases r
    · exact ⟨_, rfl⟩
    · cases hc
  · cases h

/-- Every push in the log was committed by a request in flight. -/
def World.Sourced (w : World D caps) : Prop :=
  ∀ p ∈ w.pushes, ∃ t ∈ w.threads, ∃ e ∈ t.hist, p ∈ commits t.req e

theorem Reachable.sourced {w : World D caps} (h : Reachable S redirects w) : w.Sourced := by
  induction h with
  | init => exact nofun
  | @step w₀ w₁ _ hstep ih =>
    have hkeep : ∀ p ∈ w₀.pushes, ∃ t ∈ w₁.threads, ∃ e ∈ t.hist, p ∈ commits t.req e := fun p hp => by
      obtain ⟨t, ht, e, he, hpe⟩ := ih p hp
      obtain ⟨t', ht', hreq, hhist⟩ := hstep.thread_mem ht
      exact ⟨t', ht', e, hhist e he, hreq ▸ hpe⟩
    cases hstep with
    | arrive => exact hkeep
    | call i hi hprog r =>
      intro p hp
      rcases List.mem_append.mp hp with hp | hp
      · exact ⟨_, List.mem_set _ _ hi _, _,
          List.mem_append_right _ (List.mem_singleton_self _), hp⟩
      · exact hkeep p hp

/-- A record of the manifest store is one of the two a committed push wrote. -/
theorem World.Inv.mem_manifests {w : World D caps} (hw : w.Inv S) {x : PutRequest}
    (hx : x ∈ w.store.manifests) :
    ∃ p ∈ w.pushes, x ∈ p.puts ∧ x.repo = p.repo ∧ x.manifest = p.manifest := by
  rw [hw.manifests, List.mem_flatMap] at hx
  obtain ⟨p, hp, hxp⟩ := hx
  refine ⟨p, hp, List.mem_reverse.mp hxp, ?_⟩
  simp only [Push.puts, putRequests, List.reverse_cons, List.reverse_nil, List.nil_append,
    List.singleton_append, List.mem_cons, List.mem_singleton, List.not_mem_nil, or_false] at hxp
  rcases hxp with rfl | rfl <;> exact ⟨rfl, rfl⟩

/-- Every record is authorized.  In every reachable world, every record of the manifest store
was written by the transaction of a PUT to a manifest of the record's repository, after the
authorizer granted `Write` on that repository and the reference the request's path names,
earlier in that same request. -/
theorem records_authorized {w : World D caps} (hw : Reachable S redirects w) {x : PutRequest}
    (hx : x ∈ w.store.manifests) :
    ∃ t ∈ w.threads, isManifest t.req.path = true ∧ t.req.method = "PUT" ∧
      ∃ target, repoTarget t.req.path = some (x.repo, target) ∧
        ∃ pre puts post, t.hist = pre ++ ⟨.runTx puts, none⟩ :: post ∧ x ∈ puts ∧
          (⟨.authorizeReference x.repo target .write, none⟩ : Ev D) ∈ pre := by
  have hinv := hw.inv
  obtain ⟨p, hp, hxp, hrepo, -⟩ := hinv.mem_manifests hx
  obtain ⟨t, ht, e, he, hpe⟩ := hw.sourced p hp
  obtain ⟨hpush, puts, rfl⟩ := mem_commits hpe
  have hpath := Request.path_of_push hpush
  have hput : isManifest t.req.path = true ∧ t.req.method = "PUT" := by
    by_contra hno
    have := (route_writes t.routed hno).of_steps t.steps _ he
    cases this
  obtain ⟨pre, post, hsplit⟩ := List.append_of_mem he
  -- the transaction is the one of the request's own push
  obtain ⟨p', hpath', htype', hbody', hputs, -⟩ :=
    (route_pushCall t.routed).of_steps t.steps pre _ post hsplit
  have hread := (hinv.threads t ht).2.1 _ (by rw [hsplit]; exact List.mem_append_left _ hbody')
  obtain rfl : p' = p := Option.some.inj ((Request.push_eq hpath' htype' hread.symm).symm.trans hpush)
  have hgrant := (handle_granted caps t.req hpath).of_steps (route_eq_handle t.routed hput.1 ▸ t.steps)
    pre _ post hsplit trivial
  simp only [manifestGrant, hput.2, if_neg (show "PUT" ≠ "GET" by decide),
    if_neg (show "PUT" ≠ "HEAD" by decide), if_true, Option.some.injEq, exists_eq_left'] at hgrant
  exact ⟨t, ht, hput.1, hput.2, p'.target, hrepo ▸ hpath, pre, _, post, hsplit, hputs ▸ hxp,
    hrepo ▸ hgrant.1⟩

/-- A push of `null` to `acme/app:v1`: its records are authorized. -/
theorem records_authorized_v1 :
    ∃ (w : World jsonDeps ⟨true, true⟩) (x : PutRequest), Reachable ({Json.null} : Set Json) false w ∧
      x ∈ w.store.manifests ∧
      ∃ t ∈ w.threads, isManifest t.req.path = true ∧ t.req.method = "PUT" ∧
        ∃ target, repoTarget t.req.path = some (x.repo, target) ∧
          ∃ pre puts post, t.hist = pre ++ ⟨.runTx puts, none⟩ :: post ∧ x ∈ puts ∧
            (⟨.authorizeReference x.repo target .write, none⟩ : Ev jsonDeps) ∈ pre := by
  have hpush : Exec false (.ok Json.null) (handle ⟨true, true⟩
      (⟨"PUT", "/v2/acme/app/manifests/v1", [], "text/plain", .ok Json.null⟩ : Request jsonDeps))
      State.empty _ none := Exec.of_respond rfl
  obtain ⟨w, hw, hstore, -⟩ := (Reachable.init (D := jsonDeps) (S := ({Json.null} : Set Json))).arrive_run
    ⟨"PUT", "/v2/acme/app/manifests/v1", [], "text/plain", .ok Json.null⟩ rfl
    (fun _ hb => (Except.ok.inj hb).symm) hpush
  have hx : (⟨"acme/app", "v1", ⟨"text/plain", ⟨Hash.ofDigit '1', 1⟩⟩, []⟩ : PutRequest) ∈
      w.store.manifests := by
    rw [hstore]
    exact List.mem_cons_self _ _
  exact ⟨w, _, hw, hx, records_authorized hw hx⟩

/-- Every body a run the stores allow read is the request's. -/
theorem Prog.Allowed.readsBody {body : Except Err D.Body} {σ : State D} {es : List (Ev D)}
    (h : Allowed (Answers redirects body) State.apply σ es) :
    ∀ r, (⟨.readBody, r⟩ : Ev D) ∈ es → r = body := by
  induction es generalizing σ with
  | nil => exact nofun
  | cons e es ih =>
    rintro r (_ | ⟨_, hr⟩)
    · exact h.1
    · exact ih h.2 r hr

/-- The pushes a run commits, newest first, are the same in commit order: at most one per
call. -/
theorem flatMap_reverse_commits (req : Request D) (es : List (Ev D)) :
    es.reverse.flatMap (commits req) = (es.flatMap (commits req)).reverse := by
  have hblock : List.reverse ∘ commits req = commits req := by
    funext e
    simp only [Function.comp_apply, commits]
    split <;> cases req.push <;> rfl
  rw [List.flatMap_reverse, hblock]

/-- A manifest PUT that arrives and runs to the end on its own, and answers success, leaves a
reachable world whose log has its push newest, and the stores its calls leave. -/
theorem Reachable.push_run {w : World D caps} (hw : Reachable S redirects w) (req : Request D)
    {p : Handler D (Option RegError)} (hroute : route caps req = some p)
    (hbody : ∀ b, req.body = .ok b → b ∈ S) (hmanifest : isManifest req.path = true)
    (hput : req.method = "PUT") {es : List (Ev D)}
    (hexec : Exec redirects req.body p w.store es none) :
    ∃ (w' : World D caps) (q : Push D), Reachable S redirects w' ∧ req.push = some q ∧
      w'.pushes = q :: w.pushes ∧ w'.store = after State.apply w.store es := by
  obtain ⟨w', hw', hstore, hpushes, -⟩ := hw.arrive_run req hroute hbody hexec
  obtain ⟨q, hq, hcommits⟩ := push_committed_once hroute hmanifest hput hexec.1 hexec.2.readsBody
  refine ⟨w', q, hw', hq, ?_, hstore⟩
  rw [hpushes, flatMap_reverse_commits, hcommits]
  rfl

/-- Valid hashes are told apart by their text. -/
theorem Hash.toString_inj {h h' : Hash} (hv : h.Valid) (hv' : h'.Valid)
    (heq : h.toString = h'.toString) : h = h' :=
  Option.some.inj ((newHash_toString hv).symm.trans (heq ▸ newHash_toString hv'))

/-- The tag re-point law.  In every reachable world whose last two commits are pushes to the
same target of a repository, with no collision of the digest function on the bodies requests
carry: GET of the target sends the newer push; and GET of the older push's digest, when the
two digests differ and the older target is not that digest, still sends the older one. -/
theorem tag_repoint (hS : Set.InjOn D.sha256 S) {w : World D caps}
    (hw : Reachable S redirects w) {q₁ q₂ : Push D} {ps : List (Push D)}
    (hlog : w.pushes = q₂ :: q₁ :: ps) (hrepo : q₂.repo = q₁.repo) (htarget : q₂.target = q₁.target)
    (hdigest : D.sha256 q₁.body ≠ D.sha256 q₂.body)
    (htag : q₁.target ≠ (D.sha256 q₁.body).toString) :
    (∀ req body es res, Exec false body (handleGet req q₁.repo q₁.target) w.store es res →
      Response.of es = q₂.pulled) ∧
    (∀ req body es res, Exec false body (handleGet req q₁.repo (D.sha256 q₁.body).toString) w.store
      es res → Response.of es = q₁.pulled) := by
  have hinv := hw.inv
  have hserve : ∀ {reference : String} {q : Push D}, q ∈ w.pushes →
      lookup w.pushes q.repo reference = some q → ∀ req body es res,
        Exec false body (handleGet req q.repo reference) w.store es res → Response.of es = q.pulled :=
    fun hq hlookup req body es res hget =>
      (Exec.of_wpIn (handleGet_serves body w.store req _ _) hget).1 _ _ (hinv.get_of_lookup hlookup)
        (hinv.blob_push hS hq)
  have hne : (D.sha256 q₂.body).toString ≠ (D.sha256 q₁.body).toString := fun h =>
    hdigest (Hash.toString_inj (D.sha256_valid _) (D.sha256_valid _) h).symm
  constructor
  · rw [← hrepo]
    exact hserve (hlog ▸ List.mem_cons_self _ _) (by simp [hlog, lookup, hrepo, htarget])
  · exact hserve (hlog ▸ List.mem_cons_of_mem _ (List.mem_cons_self _ _))
      (by simp [hlog, lookup, hrepo, htarget, htag, hne])

end Runs

/-- Two pushes to `acme/app:v1`, of `{}` and then of `null`, whose digests differ. -/
theorem tag_repoint_v1 :
    ∃ (w : World indexDeps ⟨true, true⟩) (q₁ q₂ : Push indexDeps) (ps : List (Push indexDeps)),
      Reachable ({Json.object [], Json.null} : Set Json) false w ∧ w.pushes = q₂ :: q₁ :: ps ∧
      q₂.repo = q₁.repo ∧ q₂.target = q₁.target ∧ indexDeps.sha256 q₁.body ≠ indexDeps.sha256 q₂.body ∧
      q₁.target ≠ (indexDeps.sha256 q₁.body).toString ∧
      (∀ req body es res, Exec false body (handleGet req q₁.repo q₁.target) w.store es res →
        Response.of es = q₂.pulled) ∧
      (∀ req body es res, Exec false body (handleGet req q₁.repo (indexDeps.sha256 q₁.body).toString)
        w.store es res → Response.of es = q₁.pulled) := by
  have hS : Set.InjOn indexDeps.sha256 ({Json.object [], Json.null} : Set Json) := by
    rintro x (rfl | rfl) y (rfl | rfl) h
    all_goals first | rfl | exact absurd h (by decide)
  have h₁ : Exec false (.ok (Json.object [])) (handle ⟨true, true⟩ (⟨"PUT",
      "/v2/acme/app/manifests/v1", [], "text/plain", .ok (Json.object [])⟩ : Request indexDeps))
      State.empty _ none := Exec.of_respond rfl
  obtain ⟨w₁, q₁, hw₁, hq₁, hlog₁, hstore₁⟩ := (@Reachable.init indexDeps ⟨true, true⟩
    ({Json.object [], Json.null} : Set Json) false).push_run
    ⟨"PUT", "/v2/acme/app/manifests/v1", [], "text/plain", .ok (Json.object [])⟩ rfl
    (fun _ hb => .inl (Except.ok.inj hb).symm) (by decide) rfl h₁
  have h₂ : Exec false (.ok Json.null) (handle ⟨true, true⟩ (⟨"PUT",
      "/v2/acme/app/manifests/v1", [], "text/plain", .ok Json.null⟩ : Request indexDeps))
      w₁.store _ none := Exec.of_respond (by rw [hstore₁]; rfl)
  obtain ⟨w₂, q₂, hw₂, hq₂, hlog₂, -⟩ := hw₁.push_run
    ⟨"PUT", "/v2/acme/app/manifests/v1", [], "text/plain", .ok Json.null⟩ rfl
    (fun _ hb => .inr (Except.ok.inj hb).symm) (by decide) rfl h₂
  cases hq₁
  cases hq₂
  have hlog : w₂.pushes = ⟨"acme/app", "v1", "text/plain", Json.null⟩ ::
      ⟨"acme/app", "v1", "text/plain", Json.object []⟩ :: [] := by
    rw [hlog₂, hlog₁]
    rfl
  exact ⟨w₂, _, _, [], hw₂, hlog, rfl, rfl, by decide, by decide,
    tag_repoint hS hw₂ hlog rfl rfl (by decide) (by decide)⟩

end DistrRegistry
