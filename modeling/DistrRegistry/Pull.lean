/-
Pulls: `handleGet` and `handleHead`.  Both record the pull with the auditor exactly when they
return `nil`, and neither looks at the auditor's answer.  Against the stores both answer as
`pullAnswer` says (GET as long as it sends no redirect and its body write succeeds), so they
return the same `regError` and send the same status and headers; where the blob store
redirects, GET sends the redirect's code while HEAD sends 200.
-/
import DistrRegistry.Environment
import DistrRegistry.Handler

namespace DistrRegistry

open Prog

variable {D : Deps}

/-- The repository and reference an `AuditPull` call records. -/
def Call.auditArgs : Call D → Option (String × String)
  | .auditPull repo target => some (repo, target)
  | _ => none

/-- The pulls the calls `es` record, in order. -/
def audits (es : List (Ev D)) : List (String × String) := es.filterMap (·.1.auditArgs)

/-- A call on the auditor. -/
def Call.IsAudit (c : Call D) : Prop := c.auditArgs.isSome

theorem handleGet_audits (req : Request D) (repo target : String) :
    (handleGet req repo target).Wp fun es res =>
      audits es = if res = none then [(repo, target)] else [] := by
  simp only [handleGet, manifestGet, blobGet, auditPull, redirect, setHeader, writeHeader, write,
    call_bind, pure_bind, wp_call, wp_pure, pure_eq]
  rintro (e | m)
  · rfl
  · rintro (e | e | buf) <;> dsimp only
    · split
      · exact fun _ _ => rfl
      · rfl
    · rfl
    · rintro _ _ _ _ (_ | _)
      · exact fun _ => rfl
      · rfl

theorem handleHead_audits (caps : BlobCaps) (repo target : String) :
    (handleHead (D := D) caps repo target).Wp fun es res =>
      audits es = if res = none then [(repo, target)] else [] := by
  simp only [handleHead, manifestGet, blobStat, auditPull, setHeader, writeHeader,
    call_bind, pure_bind, wp_call, wp_pure, pure_eq]
  rintro (e | m) <;> dsimp only
  · rfl
  · split
    · rfl
    · rintro (e | l)
      · rfl
      · exact fun _ _ _ _ _ => rfl

theorem handleGet_ignores_audit (req : Request D) (repo target : String) :
    (handleGet req repo target).Ignores Call.IsAudit := by
  simp only [handleGet, manifestGet, blobGet, auditPull, redirect, setHeader, writeHeader, write,
    call_bind, pure_bind, pure_eq, ignores_call, ignores_pure, Call.IsAudit, Call.auditArgs,
    Option.isSome_none, Option.isSome_some, Bool.false_eq_true, false_implies, true_and,
    implies_true, forall_const, Call.Ret, except_forall, Option.forall, and_true]
  intro _ e
  split <;> simp [Call.IsAudit, Call.auditArgs]

theorem handleHead_ignores_audit (caps : BlobCaps) (repo target : String) :
    (handleHead (D := D) caps repo target).Ignores Call.IsAudit := by
  simp only [handleHead, manifestGet, blobStat, auditPull, setHeader, writeHeader,
    call_bind, pure_bind, pure_eq, ignores_call, ignores_pure, Call.IsAudit, Call.auditArgs,
    Option.isSome_none, Option.isSome_some, Bool.false_eq_true, false_implies, true_and,
    implies_true, forall_const, Call.Ret, except_forall, and_true]
  intro _
  split <;> simp [Call.IsAudit, Call.auditArgs, Call.Ret, except_forall]

/-- Pull auditing.  Every complete run of `handleGet` and of `handleHead`, whatever the
stores, the response writer and the auditor answer, records the pull of `repo` at `target`
once when it returns `nil` and never otherwise; and neither handler looks at the auditor's
answer, so its failure changes nothing the handler does. -/
theorem pull_audited_once (caps : BlobCaps) (req : Request D) (repo target : String) :
    (handleGet req repo target).Wp (fun es res =>
      audits es = if res = none then [(repo, target)] else []) ∧
    (handleHead (D := D) caps repo target).Wp (fun es res =>
      audits es = if res = none then [(repo, target)] else []) ∧
    (handleGet req repo target).Ignores Call.IsAudit ∧
    (handleHead (D := D) caps repo target).Ignores Call.IsAudit :=
  ⟨handleGet_audits req repo target, handleHead_audits caps repo target,
    handleGet_ignores_audit req repo target, handleHead_ignores_audit caps repo target⟩

/-- The result, status and headers both GET and HEAD answer with from `σ` for `target` in
`repo`, when GET takes no redirect and its body write succeeds. -/
def pullAnswer (σ : State D) (repo target : String) :
    Option RegError × Option Nat × List (String × String) :=
  match σ.get repo target with
  | .error e => (some (manifestGetError e), none, [])
  | .ok m =>
    match σ.blob repo m.blob.digest with
    | none => (some regErrManifestUnknown, none, [])
    | some b => (none, some 200, [("Docker-Content-Digest", m.blob.digest.toString),
        ("Content-Type", m.contentType), ("Content-Length", toString (D.len b))])

/-- A body write that failed. -/
def writeFailed : Ev D → Bool
  | ⟨.write _, some _⟩ => true
  | _ => false

/-- A redirect sent. -/
def redirected : Ev D → Bool
  | ⟨.redirect .., _⟩ => true
  | _ => false

theorem handleGet_pull (body : Except Err D.Body) (σ : State D) (req : Request D)
    (repo target : String) :
    (handleGet req repo target).WpIn (Answers true body) State.apply σ fun es res =>
      (∀ e ∈ es, writeFailed e = false) →
        res = (pullAnswer σ repo target).1 ∧
        ((∀ e ∈ es, redirected e = false) →
          ((Response.of es).status, (Response.of es).headers) = (pullAnswer σ repo target).2) := by
  simp only [handleGet, manifestGet, blobGet, auditPull, redirect, setHeader, writeHeader, write,
    call_bind, pure_bind, pure_eq, wpIn_call, wpIn_pure, Answers]
  rintro _ rfl
  unfold pullAnswer
  rcases σ.get repo target with e | m
  · exact fun _ => ⟨rfl, fun _ => rfl⟩
  · simp only [State.apply, Answers, wpIn_call, wpIn_pure]
    rcases σ.blob repo m.blob.digest with _ | b
    · rintro _ ⟨e, rfl, he⟩
      simp only [he, wpIn_pure]
      exact fun _ => ⟨trivial, fun _ => rfl⟩
    · rintro _ (rfl | ⟨-, e, rfl, he⟩)
      · intro _ _ _ _ _ _ _ _ w _
        cases w with
        | some e => exact fun h => nomatch h ⟨.write b, some e⟩ (by simp)
        | none => exact fun _ _ _ => ⟨rfl, fun _ => rfl⟩
      · obtain ⟨⟨location, code⟩, hr⟩ := Option.isSome_iff_exists.mp he
        simp only [hr]
        exact fun _ _ _ _ _ => ⟨rfl, fun hno =>
          nomatch hno ⟨.redirect req.method req.path location code, ()⟩ (by simp)⟩

/-- `http.Redirect` on a response with nothing written yet sends the redirect's code and the
`Location` of the URL made absolute and escaped. -/
theorem Response.redirect_sent (method path url : String) (code : Nat) :
    (Response.of [(⟨.redirect method path url code, ()⟩ : Ev D)]).status = some code ∧
      (Response.of [(⟨.redirect method path url code, ()⟩ : Ev D)]).header "Location" =
        some (hexEscapeNonASCII (redirectUrl D path url)) := by
  simp only [Response.of, List.foldl, Response.apply, Option.isNone_none, if_true]
  split_ifs <;> exact ⟨rfl, rfl⟩

/-- GET redirects only for a stored manifest whose bytes the blob store holds, and then sends
the redirect's code and `Location`. -/
theorem handleGet_redirect (body : Except Err D.Body) (σ : State D) (req : Request D)
    (repo target : String) :
    (handleGet req repo target).WpIn (Answers true body) State.apply σ fun es _ =>
      ∀ location code, (⟨.redirect req.method req.path location code, ()⟩ : Ev D) ∈ es →
        (pullAnswer σ repo target).2.1 = some 200 ∧ (Response.of es).status = some code ∧
        (Response.of es).header "Location" =
          some (hexEscapeNonASCII (redirectUrl D req.path location)) := by
  simp only [handleGet, manifestGet, blobGet, auditPull, redirect, setHeader, writeHeader, write,
    call_bind, pure_bind, pure_eq, wpIn_call, wpIn_pure, Answers]
  rintro _ rfl
  unfold pullAnswer
  rcases σ.get repo target with e | m
  · simp
  · simp only [State.apply, Answers, wpIn_call, wpIn_pure]
    rcases σ.blob repo m.blob.digest with _ | b
    · rintro _ ⟨e, rfl, he⟩
      simp [he]
    · rintro _ (rfl | ⟨-, e, rfl, he⟩)
      · intro _ _ _ _ _ _ _ _ w _
        cases w <;> simp
      · obtain ⟨⟨location, code⟩, hr⟩ := Option.isSome_iff_exists.mp he
        simp only [hr]
        intro _ _ _ _ location' code' hmem
        simp only [List.mem_cons, List.mem_singleton, Sigma.mk.inj_iff, Call.redirect.injEq,
          reduceCtorEq, false_and, false_or, or_false, List.not_mem_nil] at hmem
        obtain ⟨⟨-, -, rfl, rfl⟩, -⟩ := hmem
        exact ⟨trivial, Response.redirect_sent (D := D) req.method req.path location' code'⟩

theorem handleHead_pull (body : Except Err D.Body) (σ : State D) (put : Bool)
    (repo target : String) :
    (handleHead ⟨true, put⟩ repo target).WpIn (Answers true body) State.apply σ fun es res =>
      (res, (Response.of es).status, (Response.of es).headers) = pullAnswer σ repo target := by
  simp only [handleHead, manifestGet, blobStat, auditPull, setHeader, writeHeader,
    call_bind, pure_bind, pure_eq, wpIn_call, wpIn_pure, Answers]
  rintro _ rfl
  unfold pullAnswer
  rcases σ.get repo target with e | m
  · rfl
  · simp only [State.apply, Answers, wpIn_call, wpIn_pure, Bool.not_true, Bool.false_eq_true,
      ite_false]
    rcases σ.blob repo m.blob.digest with _ | b
    · rintro _ ⟨e, rfl⟩
      rfl
    · rintro _ rfl
      exact fun _ _ _ _ _ _ _ _ _ _ => rfl

/-- Where GET and HEAD answer 200 against the stores, they send the three headers of the pull. -/
theorem pullAnswer_headers {σ : State D} {repo target : String}
    (h : (pullAnswer σ repo target).2.1 = some 200) :
    (pullAnswer σ repo target).2.2.map Prod.fst =
      ["Docker-Content-Digest", "Content-Type", "Content-Length"] := by
  unfold pullAnswer at h ⊢
  split at h
  · cases h
  · split at h
    · cases h
    · rfl

/-- HEAD agrees with GET.  From any state of the stores, against a blob store that implements
`Stat` and may redirect, GET and HEAD on one reference return the same `regError` whenever
GET's body write succeeds, and send the same status and headers whenever GET sends no
redirect.  Where the blob store redirects, GET sends the redirect's code and `Location` while
HEAD sends 200 and the three headers. -/
theorem head_agrees_with_get (body : Except Err D.Body) (σ : State D) (put : Bool)
    (req : Request D) (repo target : String) {es₁ es₂ : List (Ev D)} {r₁ r₂ : Option RegError}
    (hget : Exec true body (handleGet req repo target) σ es₁ r₁)
    (hhead : Exec true body (handleHead ⟨true, put⟩ repo target) σ es₂ r₂)
    (hwrite : ∀ e ∈ es₁, writeFailed e = false) :
    r₁ = r₂ ∧ ((∀ e ∈ es₁, redirected e = false) →
      (Response.of es₁).status = (Response.of es₂).status ∧
      (Response.of es₁).headers = (Response.of es₂).headers) ∧
    ∀ location code, (⟨.redirect req.method req.path location code, ()⟩ : Ev D) ∈ es₁ →
      (Response.of es₁).status = some code ∧
      (Response.of es₁).header "Location" =
        some (hexEscapeNonASCII (redirectUrl D req.path location)) ∧
      (Response.of es₂).status = some 200 ∧
      (Response.of es₂).headers.map Prod.fst =
        ["Docker-Content-Digest", "Content-Type", "Content-Length"] := by
  have hh := hhead.of_wpIn (handleHead_pull body σ put repo target)
  have hg := hget.of_wpIn (handleGet_pull body σ req repo target) hwrite
  rw [← hh] at hg
  refine ⟨hg.1, fun hno => Prod.mk.inj (hg.2 hno), fun location code hmem => ?_⟩
  obtain ⟨h200, hstatus, hlocation⟩ :=
    hget.of_wpIn (handleGet_redirect body σ req repo target) location code hmem
  have hstatus₂ : (Response.of es₂).status = (pullAnswer σ repo target).2.1 :=
    congrArg (·.2.1) hh
  have hheaders₂ : (Response.of es₂).headers = (pullAnswer σ repo target).2.2 :=
    congrArg (·.2.2) hh
  exact ⟨hstatus, hlocation, hstatus₂.trans h200, hheaders₂ ▸ pullAnswer_headers h200⟩

/-- A store holding one manifest, `v1` of `acme/app`, and its bytes. -/
def pulledStore : State jsonDeps :=
  ⟨[⟨"acme/app", "v1", ⟨"text/plain", ⟨Hash.ofDigit '1', 1⟩⟩, []⟩],
    [("acme/app", Hash.ofDigit '1', .null)]⟩

/-- A GET of `acme/app:v1`. -/
def pullRequest : Request jsonDeps := ⟨"GET", "/v2/acme/app/manifests/v1", [], "", .ok Json.null⟩

theorem head_agrees_with_get_v1 :
    ∃ es₁ es₂ : List (Ev jsonDeps),
      Exec true (.ok Json.null : Except Err jsonDeps.Body) (handleGet pullRequest "acme/app" "v1")
        pulledStore es₁ none ∧
      Exec true (.ok Json.null : Except Err jsonDeps.Body) (handleHead ⟨true, true⟩ "acme/app" "v1")
        pulledStore es₂ none ∧
      (∀ e ∈ es₁, writeFailed e = false) ∧
      ((none : Option RegError) = none ∧ ((∀ e ∈ es₁, redirected e = false) →
        (Response.of es₁).status = (Response.of es₂).status ∧
        (Response.of es₁).headers = (Response.of es₂).headers) ∧
      ∀ location code, (⟨.redirect "GET" "/v2/acme/app/manifests/v1" location code, ()⟩ :
          Ev jsonDeps) ∈ es₁ →
        (Response.of es₁).status = some code ∧
        (Response.of es₁).header "Location" =
          some (hexEscapeNonASCII (redirectUrl jsonDeps "/v2/acme/app/manifests/v1" location)) ∧
        (Response.of es₂).status = some 200 ∧
        (Response.of es₂).headers.map Prod.fst =
          ["Docker-Content-Digest", "Content-Type", "Content-Length"]) := by
  have hget : Exec true (.ok Json.null) (handleGet pullRequest "acme/app" "v1") pulledStore _ none :=
    Exec.of_respond rfl
  have hhead : Exec true (.ok Json.null) (handleHead ⟨true, true⟩ "acme/app" "v1") pulledStore
    _ none := Exec.of_respond rfl
  refine ⟨_, _, hget, hhead, ?_, head_agrees_with_get _ _ _ _ _ _ hget hhead ?_⟩ <;> decide

/-- Where the blob store redirects, GET answers with the redirect's code and HEAD with 200,
both returning `nil`. -/
theorem get_redirect_status_differs :
    ∃ es₁ es₂ : List (Ev jsonDeps),
      Exec true (.ok Json.null : Except Err jsonDeps.Body) (handleGet pullRequest "acme/app" "v1")
        pulledStore es₁ none ∧
      Exec true (.ok Json.null : Except Err jsonDeps.Body) (handleHead ⟨true, true⟩ "acme/app" "v1")
        pulledStore es₂ none ∧
      (∀ e ∈ es₁, writeFailed e = false) ∧
      (Response.of es₁).status = some 307 ∧ (Response.of es₂).status = some 200 := by
  have hget : Exec true (.ok Json.null) (handleGet pullRequest "acme/app" "v1") pulledStore _ none :=
    Exec.of_run (Or.inr rfl) (show Prog.run State.apply
      (State.respond (some ("/blobs/acme/app", 307)) (.ok Json.null))
      (handleGet pullRequest "acme/app" "v1") pulledStore = some (_, none) from rfl)
  have hhead : Exec true (.ok Json.null) (handleHead ⟨true, true⟩ "acme/app" "v1") pulledStore
    _ none := Exec.of_respond rfl
  exact ⟨_, _, hget, hhead, by decide, by decide, by decide⟩

end DistrRegistry
