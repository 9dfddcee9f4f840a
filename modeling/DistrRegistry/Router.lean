/-
The router's surface.  For every request the classifier routes, whatever the collaborators
answer: only a manifest PUT writes to the stores; and every response is framed, its body, when
there is one, sent once, with status 200 and a `Content-Length` of its length, or as the HTML
note of `http.Redirect` with the redirect's code, its `Location` and a `text/html` content
type; a request that is not a GET is answered with no body.

Each is proved per handler and assembled over the routes, as `route_pushCall` is.
-/
import DistrRegistry.Commit
import DistrRegistry.Referrers

namespace DistrRegistry

open Prog

variable {D : Deps} {caps : BlobCaps}

/-- A manifest request is routed to `handle`. -/
theorem route_eq_handle {req : Request D} {p : Handler D (Option RegError)}
    (h : route caps req = some p) (hmanifest : isManifest req.path = true) : p = handle caps req := by
  simp only [route, hmanifest, if_true, Option.some.injEq] at h
  exact h.symm

/-- An authorization in front of a handler: the authorizer's error answered with its
`regError`, and otherwise the handler after the authorizer's call. -/
theorem authorizedReference_wp {post : List (Ev D) → Option RegError → Prop}
    {repo target : String} {action : Action} {next : Handler D (Option RegError)}
    (hnext : next.Wp fun es a => post (⟨.authorizeReference repo target action, none⟩ :: es) a)
    (herr : ∀ e, post [⟨.authorizeReference repo target action, some e⟩] (some (authzError e))) :
    (authorizedReference repo target action next).Wp post := by
  simp only [authorizedReference, authorizeReference, call_bind, Prog.pure_bind, wp_call]
  rintro (_ | e)
  exacts [hnext, herr e]

/-! Writes. -/

/-- An authorization in front of a handler keeps a property of every call that the
authorizer's call has. -/
theorem authorizedReference_always {P : Ev D → Prop} {repo target : String} {action : Action}
    {next : Handler D (Option RegError)} (hauth : ∀ r, P ⟨.authorizeReference repo target action, r⟩)
    (hnext : next.Always P) : (authorizedReference repo target action next).Always P := by
  simp only [authorizedReference, authorizeReference, call_bind, Prog.pure_bind, always_call,
    Call.Ret, Option.forall]
  exact ⟨⟨hauth none, hnext⟩, fun e => ⟨hauth (some e), always_pure⟩⟩

/-- Only a manifest PUT writes: every other request the classifier routes runs a handler that
never calls the blob `Put` or the transaction. -/
theorem route_writes {req : Request D} {p : Handler D (Option RegError)}
    (h : route caps req = some p) (hpush : ¬ (isManifest req.path = true ∧ req.method = "PUT")) :
    p.Always fun e => e.1.writes = false := by
  unfold route at h
  split at h
  · cases h
    unfold handle
    split
    · exact fun r => r.elim
    · split_ifs with hget hhead hput
      · exact authorizedReference_always (fun _ => rfl) (handleGet_writes _ _ _)
      · exact authorizedReference_always (fun _ => rfl) (handleHead_writes _ _ _)
      · exact absurd ⟨‹_›, hput⟩ hpush
      · exact always_pure
  split at h
  · cases h; exact handleTags_writes req
  split at h
  · cases h; exact handleCatalog_writes req
  split at h
  · cases h; exact handleReferrers_writes req
  · cases h

/-- A blob handler that is not a `BlobPutHandler` stops a push before its first write. -/
theorem handlePut_read_only (hcaps : caps.put = false) (req : Request D) (repo target : String) :
    (handlePut caps req repo target).Always fun e => e.1.writes = false := by
  simp only [handlePut, readBody, call_bind, Prog.pure_bind, always_call, Call.Ret, except_forall]
  refine ⟨fun _ => ⟨rfl, always_pure⟩, fun buf => ⟨rfl, ?_⟩⟩
  unfold handlePutBuffer
  refine always_bind (putDependencies_writes _ _ _) fun deps => ?_
  rcases deps with e | blobs
  · exact always_pure
  · dsimp only
    split
    · exact always_pure
    · rw [hcaps]
      exact always_pure

/-- Without a `BlobPutHandler` no routed request writes, manifest PUTs included. -/
theorem route_writes_of_no_put (hcaps : caps.put = false) {req : Request D}
    {p : Handler D (Option RegError)} (h : route caps req = some p) :
    p.Always fun e => e.1.writes = false := by
  by_cases hpush : isManifest req.path = true ∧ req.method = "PUT"
  · obtain rfl := route_eq_handle h hpush.1
    obtain ⟨repo, target, hparse⟩ := repoTarget_of_isRoute hpush.1
    rw [handle, hparse]
    simp only [hpush.2, if_neg (show "PUT" ≠ "GET" by decide),
      if_neg (show "PUT" ≠ "HEAD" by decide), if_true]
    exact authorizedReference_always (fun _ => rfl) (handlePut_read_only hcaps _ _ _)
  · exact route_writes h hpush

/-! Framing. -/

/-- A call that may send bytes of the body: a write, or `http.Redirect`'s note. -/
def Call.sendsBody : Call D → Bool
  | .write _ | .redirect .. => true
  | _ => false

/-- A response as HTTP frames it: no body; or one body sent with status 200 and a
`Content-Length` of its length; or the note of `http.Redirect` for a URL, sent with the
redirect's code, that URL as `Location` and a `text/html` content type. -/
def Response.Framed (r : Response D) : Prop :=
  r.body = [] ∨
    (∃ b, r.body = [b] ∧ r.status = some 200 ∧ r.header "Content-Length" = some (toString (D.len b))) ∨
    ∃ url code, r.body = [D.bytesOf (redirectNote D url code)] ∧ r.status = some code ∧
      r.header "Location" = some (hexEscapeNonASCII url) ∧
      r.header "Content-Type" = some "text/html; charset=utf-8"

/-- `http.Redirect` on a response with nothing written yet frames what it sends. -/
theorem Response.redirect_framed (method path url : String) (code : Nat) :
    (Response.of [(⟨.redirect method path url code, ()⟩ : Ev D)]).Framed := by
  by_cases hget : method = "GET"
  · subst hget
    exact .inr (.inr ⟨_, code, rfl, rfl, rfl, rfl⟩)
  · have hne : (method == "GET") = false := by simpa using hget
    refine .inl ?_
    simp only [Response.of, List.foldl, Response.apply, hne, Bool.and_false, Bool.false_eq_true,
      if_false]
    split_ifs <;> rfl

theorem Response.body_foldl_silent {es : List (Ev D)} (h : ∀ e ∈ es, e.1.sendsBody = false)
    (r : Response D) : (es.foldl Response.apply r).body = r.body := by
  induction es generalizing r with
  | nil => rfl
  | cons e es ih =>
    rw [List.forall_mem_cons] at h
    rw [List.foldl_cons, ih h.2]
    obtain ⟨c, a⟩ := e
    cases c <;> first | rfl | (simp only [Response.apply]; split <;> rfl) | cases h.1

theorem Response.framed_of_silent {es : List (Ev D)} (h : ∀ e ∈ es, e.1.sendsBody = false) :
    (Response.of es).Framed :=
  .inl (Response.body_foldl_silent h _)

theorem handleHead_silent (repo target : String) :
    (handleHead (D := D) caps repo target).Always fun e => e.1.sendsBody = false := by
  simp only [handleHead, manifestGet, blobStat, auditPull, setHeader, writeHeader, call_bind,
    Prog.pure_bind, pure_eq, always_call, always_pure, Call.Ret, except_forall, Call.sendsBody,
    and_true, true_and, implies_true, forall_const]
  intro m
  split <;> simp [Call.sendsBody, Call.Ret, except_forall]

/-- The index check of `handlePut` only reads the manifest store, in its repository. -/
theorem indexDependencies_calls (repo : String) (blobs : List Blob) (ds : List Descriptor) :
    (indexDependencies (D := D) repo blobs ds).Always fun e =>
      ∃ reference, e.1 = .manifestGet repo reference := by
  induction ds generalizing blobs with
  | nil => exact always_pure
  | cons desc rest ih =>
    unfold indexDependencies
    split
    · exact ih blobs
    · split
      · simp only [manifestGet, call_bind, Prog.pure_bind, pure_eq, always_call, always_pure,
          Call.Ret, except_forall, and_true]
        exact ⟨fun _ => ⟨_, rfl⟩, fun _ => ⟨⟨_, rfl⟩, ih _⟩⟩
      · exact ih blobs

/-- A property of every call `handlePut` can make (reading the body, reading the manifest store
in its repository, the blob `Put` and the transaction, setting headers and writing status 201)
holds of every call of every run of it. -/
theorem handlePut_always {P : Ev D → Prop} {req : Request D} {repo target : String}
    (hread : ∀ r, P ⟨.readBody, r⟩) (hget : ∀ reference r, P ⟨.manifestGet repo reference, r⟩)
    (hput : ∀ digest contentType buf r, P ⟨.blobPut repo digest contentType buf, r⟩)
    (htx : ∀ puts r, P ⟨.runTx puts, r⟩) (hset : ∀ key value r, P ⟨.setHeader key value, r⟩)
    (hstatus : ∀ r, P ⟨.writeHeader 201, r⟩) : (handlePut caps req repo target).Always P := by
  simp only [handlePut, readBody, call_bind, Prog.pure_bind, always_call, Call.Ret, except_forall]
  refine ⟨fun _ => ⟨hread _, always_pure⟩, fun buf => ⟨hread _, ?_⟩⟩
  unfold handlePutBuffer putDependencies
  refine always_bind ?_ fun deps => ?_
  · split
    · split
      · exact always_pure
      · refine Safe.mono (indexDependencies_calls repo [] _) fun _ e ⟨_, h⟩ => ?_
        obtain ⟨c, r⟩ := e
        cases h
        exact hget _ _
    · split <;> [split <;> exact always_pure; exact always_pure]
  · rcases deps with e | blobs
    · exact always_pure
    · dsimp only
      split
      · exact always_pure
      · split
        · exact always_pure
        · simp only [blobPut, runTx, setHeader, writeHeader, call_bind, Prog.pure_bind, pure_eq,
            always_call, always_pure, Call.Ret, Option.forall, hput, htx, hset, hstatus, and_true,
            true_and, implies_true, forall_const]

theorem handlePut_silent (req : Request D) (repo target : String) :
    (handlePut caps req repo target).Always fun e => e.1.sendsBody = false :=
  handlePut_always (fun _ => rfl) (fun _ _ => rfl) (fun _ _ _ _ => rfl) (fun _ _ => rfl)
    (fun _ _ _ => rfl) fun _ => rfl

theorem writeJson_framed (j : Json) :
    (writeJson (D := D) j).Wp fun es _ => (Response.of es).Framed := by
  simp only [writeJson, setHeader, writeHeader, write, call_bind, Prog.pure_bind, pure_eq, wp_call]
  intro _ _ r
  cases r <;> exact .inr (.inl ⟨_, rfl, rfl, rfl⟩)

theorem handleGet_framed (req : Request D) (repo target : String) :
    (handleGet req repo target).Wp fun es _ => (Response.of es).Framed := by
  simp only [handleGet, manifestGet, blobGet, auditPull, redirect, setHeader, writeHeader, write,
    call_bind, Prog.pure_bind, pure_eq, wp_call, wp_pure]
  rintro (e | m)
  · exact .inl rfl
  · rintro (e | e | buf) <;> dsimp only
    · split
      · exact fun _ _ => Response.redirect_framed (D := D) _ _ _ _
      · exact .inl rfl
    · exact .inl rfl
    · intro _ _ _ _ r
      cases r
      · exact fun _ => .inr (.inl ⟨_, rfl, rfl, rfl⟩)
      · exact .inr (.inl ⟨_, rfl, rfl, rfl⟩)

theorem handleTags_framed (req : Request D) :
    (handleTags req).Wp fun es _ => (Response.of es).Framed := by
  unfold handleTags
  split
  · exact fun r => r.elim
  · split
    · simp only [authorize, manifestListTags, call_bind, Prog.pure_bind, pure_eq, wp_call, wp_pure]
      rintro (_ | e)
      · dsimp only
        split
        · exact .inl rfl
        · rintro (e | refs)
          · exact .inl rfl
          · exact (writeJson_framed _).mono fun _ _ h => h
      · exact .inl rfl
    · exact .inl rfl

theorem handleCatalog_framed (req : Request D) :
    (handleCatalog req).Wp fun es _ => (Response.of es).Framed := by
  unfold handleCatalog
  split
  · simp only [manifestList, call_bind, Prog.pure_bind, pure_eq, wp_call, wp_pure]
    rintro (e | repos)
    · exact .inl rfl
    · exact (writeJson_framed _).mono fun _ _ h => h
  · exact .inl rfl

theorem referrersLoop_quiet (repo target : String) (found : List Descriptor) (ds : List Hash) :
    (referrersLoop (D := D) repo target found ds).Always fun e => e.1.responds = false := by
  induction ds generalizing found with
  | nil => exact always_pure
  | cons reference rest ih =>
    simp only [referrersLoop, manifestGet, blobGet, call_bind, Prog.pure_bind, pure_eq,
      always_call, always_pure, Call.Ret, except_forall, Call.responds, and_true, true_and,
      implies_true, forall_const]
    intro m buf
    split
    · exact ih found
    · split
      · exact ih found
      · exact ih _

theorem handleReferrers_framed (req : Request D) :
    (handleReferrers req).Wp fun es _ => (Response.of es).Framed := by
  unfold handleReferrers
  split
  · exact .inl rfl
  · split
    · exact fun r => r.elim
    · simp only [authorizedReference, authorizeReference, manifestListDigests, call_bind,
        Prog.pure_bind, pure_eq, wp_call, wp_pure]
      rintro (_ | e)
      · dsimp only
        split
        · exact .inl rfl
        · rintro (e | ds)
          · exact .inl rfl
          · rw [wp_bind]
            refine ((referrersLoop_quiet _ _ [] ds).wp).mono fun es res hq => ?_
            have hresp : ∀ ws : List (Ev D), Response.of (es ++ ws) = Response.of ws :=
              fun ws => Response.of_append_quiet hq
            rcases res with e | found
            · show (Response.of (es ++ [])).Framed
              rw [hresp]
              exact .inl rfl
            · simp only [setHeader, writeHeader, write, call_bind, Prog.pure_bind, pure_eq, wp_call]
              intro _ _ _ r
              cases r <;>
              · show (Response.of (es ++ _)).Framed
                rw [hresp]
                exact .inr (.inl ⟨_, rfl, rfl, rfl⟩)
      · exact .inl rfl

theorem handle_framed (req : Request D) :
    (handle caps req).Wp fun es _ => (Response.of es).Framed := by
  unfold handle
  split
  · exact fun r => r.elim
  · split_ifs
    · exact authorizedReference_wp ((handleGet_framed _ _ _).mono fun _ _ h => h) fun _ => .inl rfl
    · exact authorizedReference_wp ((handleHead_silent _ _).wp.mono fun _ _ => Response.framed_of_silent)
        fun _ => .inl rfl
    · exact authorizedReference_wp ((handlePut_silent _ _ _).wp.mono fun _ _ => Response.framed_of_silent)
        fun _ => .inl rfl
    · exact .inl rfl

theorem route_framed {req : Request D} {p : Handler D (Option RegError)}
    (h : route caps req = some p) : p.Wp fun es _ => (Response.of es).Framed := by
  unfold route at h
  split at h
  · cases h; exact handle_framed req
  split at h
  · cases h; exact handleTags_framed req
  split at h
  · cases h; exact handleCatalog_framed req
  split at h
  · cases h; exact handleReferrers_framed req
  · cases h

/-- A routed request that is not a GET never sends a byte of body. -/
theorem route_silent_of_not_get {req : Request D} {p : Handler D (Option RegError)}
    (h : route caps req = some p) (hget : req.method ≠ "GET") :
    p.Always fun e => e.1.sendsBody = false := by
  unfold route at h
  split at h
  · cases h
    unfold handle
    split
    · exact fun r => r.elim
    · split_ifs
      · exact absurd ‹_› hget
      · exact authorizedReference_always (fun _ => rfl) (handleHead_silent _ _)
      · exact authorizedReference_always (fun _ => rfl) (handlePut_silent _ _ _)
      · exact always_pure
  split at h
  · cases h
    unfold handleTags
    split
    · exact fun r => r.elim
    · rw [if_neg hget]; exact always_pure
  split at h
  · cases h; simp only [handleCatalog, if_neg hget]; exact always_pure
  split at h
  · cases h; simp only [handleReferrers, if_pos hget]; exact always_pure
  · cases h

/-- Every response is framed.  For every request the classifier routes, whatever the
collaborators answer, every run of its handler sends no body; or one body once, with status 200
and a `Content-Length` of that body's length; or the note of `http.Redirect`, with the
redirect's code, its `Location` and a `text/html` content type.  A request that is not a GET
sends no body. -/
theorem response_framed {req : Request D} {p : Handler D (Option RegError)}
    (h : route caps req = some p) :
    p.Wp fun es _ => (Response.of es).Framed ∧ (req.method ≠ "GET" → (Response.of es).body = []) := by
  by_cases hget : req.method = "GET"
  · exact (route_framed h).mono fun _ _ hf => ⟨hf, fun hne => absurd hget hne⟩
  · exact (route_silent_of_not_get h hget).wp.mono fun _ _ hs =>
      ⟨Response.framed_of_silent hs, fun _ => Response.body_foldl_silent hs _⟩

/-- A GET of a manifest. -/
theorem response_framed_get :
    route ⟨true, true⟩ (⟨"GET", "/v2/acme/app/manifests/v1", [], "", .ok Json.null⟩ : Request jsonDeps) =
        some (handle ⟨true, true⟩ ⟨"GET", "/v2/acme/app/manifests/v1", [], "", .ok Json.null⟩) ∧
      (handle ⟨true, true⟩ (⟨"GET", "/v2/acme/app/manifests/v1", [], "", .ok Json.null⟩ :
        Request jsonDeps)).Wp fun es _ => (Response.of es).Framed ∧
          ("GET" ≠ "GET" → (Response.of es).body = []) :=
  ⟨rfl, @response_framed _ ⟨true, true⟩ ⟨"GET", "/v2/acme/app/manifests/v1", [], "", .ok Json.null⟩ _ rfl⟩

end DistrRegistry
