/-
Authorization comes first.  In every run of `handle`, `handleTags` and `handleReferrers`,
whatever the collaborators answer, nothing reads the request body or calls the manifest store
or the blob store before the authorizer has answered `nil` for the repository the path names,
with the action the method asks for; and every such access stays in that repository.

Each handler body is shown to stay in its repository (`StaysIn`), a property of its calls
alone; the authorization in front of it then gives the order.
-/
import DistrRegistry.Environment
import DistrRegistry.Handler

namespace DistrRegistry

open Prog

variable {D : Deps}

namespace Call

/-- Reads the request body, or calls the manifest store or the blob store. -/
def IsAccess : Call D → Prop
  | .authorize .. | .authorizeReference .. => False
  | .readBody | .manifestGet .. | .manifestListTags .. | .manifestListDigests _ => True
  | .manifestList _ | .runTx _ | .blobGet .. | .blobStat .. | .blobPut .. => True
  | .auditPull .. | .setHeader .. | .writeHeader _ | .write _ | .redirect .. => False
  | .goPanic _ => False

/-- The call, if it is an access, stays in the repository `repo`. -/
def Within (repo : String) : Call D → Prop
  | .authorize .. | .authorizeReference .. | .readBody => True
  | .manifestGet r _ | .manifestListTags r _ _ | .manifestListDigests r => r = repo
  | .manifestList _ => False
  | .runTx puts => ∀ p ∈ puts, p.repo = repo
  | .blobGet r _ _ | .blobStat r _ | .blobPut r _ _ _ => r = repo
  | .auditPull .. | .setHeader .. | .writeHeader _ | .write _ | .redirect .. => True
  | .goPanic _ => True

end Call

/-- Every access of every run of `p` stays in `repo`. -/
def StaysIn (repo : String) {α : Type} (p : Handler D α) : Prop :=
  p.Always fun e => e.1.Within repo

/-- An access `e`, made after the calls `pre`, comes after `grant`, an answer of the
authorizer, and stays in `repo`; with no grant there is no access. -/
def GrantedBy (grant : Option (Ev D)) (repo : String) (pre : List (Ev D)) (e : Ev D) : Prop :=
  e.1.IsAccess → (∃ g, grant = some g ∧ g ∈ pre) ∧ e.1.Within repo

/-- Every access of the run is granted by `grant` and stays in `repo`. -/
def AccessAfter (grant : Option (Ev D)) (repo : String) (es : List (Ev D)) : Prop :=
  ∀ pre e post, es = pre ++ e :: post → GrantedBy grant repo pre e

/-- The grant `handle` needs: the authorizer's `nil` for the reference, with `Read` for GET,
`Stat` for HEAD and `Write` for PUT. -/
def manifestGrant (method repo target : String) : Option (Ev D) :=
  if method = "GET" then some ⟨.authorizeReference repo target .read, none⟩
  else if method = "HEAD" then some ⟨.authorizeReference repo target .stat, none⟩
  else if method = "PUT" then some ⟨.authorizeReference repo target .write, none⟩
  else none

/-- The grant `handleTags` needs: the authorizer's `nil` for the repository, with `Read`. -/
def tagsGrant (method repo : String) : Option (Ev D) :=
  if method = "GET" then some ⟨.authorize repo .read, none⟩ else none

/-- The grant `handleReferrers` needs: the authorizer's `nil` for the reference, with `Read`. -/
def referrersGrant (method repo target : String) : Option (Ev D) :=
  if method = "GET" then some ⟨.authorizeReference repo target .read, none⟩ else none

theorem indexDependencies_staysIn (repo : String) (blobs : List Blob) (ds : List Descriptor) :
    StaysIn repo (indexDependencies (D := D) repo blobs ds) := by
  induction ds generalizing blobs with
  | nil => exact always_pure
  | cons desc rest ih =>
    unfold indexDependencies
    split
    · exact ih blobs
    · split
      · simp only [StaysIn, manifestGet, call_bind, pure_bind, pure_eq, always_call,
          always_pure, Call.Ret, except_forall, Call.Within, true_and, implies_true]
        exact fun _ => ih _
      · exact ih blobs

theorem putDependencies_staysIn (repo contentType : String) (buf : D.Body) :
    StaysIn repo (putDependencies repo contentType buf) := by
  unfold putDependencies
  split
  · split
    · exact always_pure
    · exact indexDependencies_staysIn repo [] _
  · split <;> [split <;> exact always_pure; exact always_pure]

theorem handleGet_staysIn (req : Request D) (repo target : String) :
    StaysIn repo (handleGet req repo target) := by
  simp only [StaysIn, handleGet, manifestGet, blobGet, auditPull, redirect, setHeader,
    writeHeader, write, call_bind, pure_bind, pure_eq, always_call, always_pure, Call.Ret,
    except_forall, Option.forall, Call.Within, and_true, true_and, implies_true, forall_const]
  intro m e
  split <;> simp [Call.Within]

theorem handleHead_staysIn (caps : BlobCaps) (repo target : String) :
    StaysIn repo (handleHead (D := D) caps repo target) := by
  simp only [StaysIn, handleHead, manifestGet, blobStat, auditPull, setHeader, writeHeader,
    call_bind, pure_bind, pure_eq, always_call, always_pure, Call.Ret, except_forall,
    Call.Within, and_true, true_and, implies_true, forall_const]
  intro m
  split <;> simp [Call.Within, Call.Ret, except_forall]

theorem handlePutBuffer_staysIn (caps : BlobCaps) (req : Request D) (repo target : String)
    (buf : D.Body) : StaysIn repo (handlePutBuffer caps req repo target buf) := by
  refine always_bind (putDependencies_staysIn repo _ buf) fun deps => ?_
  rcases deps with e | blobs <;> dsimp only
  · exact always_pure
  · split
    · exact always_pure
    · split
      · exact always_pure
      · simp only [blobPut, runTx, setHeader, writeHeader, call_bind, pure_bind, pure_eq,
          always_call, always_pure, Call.Ret, Option.forall, Call.Within, putRequests,
          List.mem_cons, List.mem_singleton, List.not_mem_nil, or_false, forall_eq_or_imp,
          forall_eq, and_true, true_and, implies_true, forall_const]

theorem handlePut_staysIn (caps : BlobCaps) (req : Request D) (repo target : String) :
    StaysIn repo (handlePut caps req repo target) := by
  simp only [StaysIn, handlePut, readBody, call_bind, pure_bind, always_call, Call.Ret,
    except_forall, Call.Within, true_and]
  exact ⟨fun _ => always_pure, handlePutBuffer_staysIn caps req repo target⟩

theorem writeJson_staysIn (repo : String) (j : Json) :
    StaysIn repo (writeJson (D := D) j) := by
  simp only [StaysIn, writeJson, setHeader, writeHeader, write, call_bind, pure_bind, pure_eq,
    always_call, always_pure, Call.Ret, Option.forall, Call.Within, and_true, true_and,
    implies_true, forall_const]

theorem referrersLoop_staysIn (repo target : String) (found : List Descriptor)
    (ds : List Hash) : StaysIn repo (referrersLoop (D := D) repo target found ds) := by
  induction ds generalizing found with
  | nil => exact always_pure
  | cons reference rest ih =>
    simp only [StaysIn, referrersLoop, manifestGet, blobGet, call_bind, pure_bind, pure_eq,
      always_call, always_pure, Call.Ret, except_forall, Call.Within, and_true, true_and,
      implies_true, forall_const]
    intro m buf
    split
    · exact ih found
    · split
      · exact ih found
      · exact ih _

/-- After a grant, a program that stays in `repo` makes only granted accesses. -/
theorem StaysIn.granted {repo : String} {α : Type} {p : Handler D α} (hp : StaysIn repo p)
    (pre : List (Ev D)) {g : Ev D} (hg : g ∈ pre) :
    p.Safe fun h e => GrantedBy (some g) repo (pre ++ h) e :=
  Safe.mono hp fun _ _ hw _ => ⟨⟨g, rfl, List.mem_append_left _ hg⟩, hw⟩

/-- An authorization in front of a body that stays in `repo` grants every access of it. -/
theorem authorizedReference_safe {repo target : String} {action : Action}
    {next : Handler D (Option RegError)} (hnext : StaysIn repo next) :
    (authorizedReference repo target action next).Safe
      (GrantedBy (some ⟨.authorizeReference repo target action, none⟩) repo) := by
  simp only [authorizedReference, authorizeReference, call_bind, pure_bind, safe_call,
    Call.Ret, Option.forall, GrantedBy, Call.IsAccess, false_implies, true_and]
  exact ⟨hnext.granted [_] (List.mem_singleton_self _), fun _ => safe_pure⟩

theorem handle_granted (caps : BlobCaps) (req : Request D) {repo target : String}
    (hpath : repoTarget req.path = some (repo, target)) :
    (handle caps req).Safe (GrantedBy (manifestGrant req.method repo target) repo) := by
  unfold handle manifestGrant
  rw [hpath]
  dsimp only
  split
  · exact authorizedReference_safe (handleGet_staysIn req repo target)
  · split
    · exact authorizedReference_safe (handleHead_staysIn caps repo target)
    · split
      · exact authorizedReference_safe (handlePut_staysIn caps req repo target)
      · exact safe_pure

theorem handleTags_granted (req : Request D) {repo target : String}
    (hpath : repoTarget req.path = some (repo, target)) :
    (handleTags req).Safe (GrantedBy (tagsGrant req.method repo) repo) := by
  unfold handleTags tagsGrant
  rw [hpath]
  dsimp only
  split
  · simp only [authorize, call_bind, pure_bind, pure_eq, safe_call, Call.Ret, Option.forall,
      GrantedBy, Call.IsAccess, false_implies, true_and]
    refine ⟨?_, fun _ => safe_pure⟩
    split
    · exact safe_pure
    · simp only [manifestListTags, call_bind, pure_bind, safe_call, safe_pure, Call.Ret,
        except_forall, Call.IsAccess, Call.Within, true_implies, and_true]
      have hg := List.mem_singleton_self (⟨.authorize repo .read, none⟩ : Ev D)
      exact ⟨fun _ => ⟨_, rfl, hg⟩, fun _ => ⟨⟨_, rfl, hg⟩,
        (writeJson_staysIn repo _).granted [_, _] (List.mem_cons_self _ _)⟩⟩
  · exact safe_pure

theorem handleReferrers_granted (req : Request D) {repo target : String}
    (hpath : repoTarget req.path = some (repo, target)) :
    (handleReferrers req).Safe (GrantedBy (referrersGrant req.method repo target) repo) := by
  unfold handleReferrers referrersGrant
  split
  · exact safe_pure
  · rw [if_pos (not_not.mp ‹_›), hpath]
    refine authorizedReference_safe ?_
    split
    · exact always_pure
    · simp only [StaysIn, manifestListDigests, call_bind, pure_bind, always_call, Call.Ret,
        except_forall, Call.Within, true_and]
      refine ⟨fun _ => always_pure, fun ds => always_bind (referrersLoop_staysIn repo target [] ds)
        fun found => ?_⟩
      rcases found with e | found <;> dsimp only
      · exact always_pure
      · simp only [setHeader, writeHeader, write, call_bind, pure_bind, pure_eq, always_call,
          always_pure, Call.Ret, Option.forall, Call.Within, and_true, true_and, implies_true,
          forall_const]

/-- Authorization precedes every access.  For every request whose path names `repo` and
`target`, whatever the collaborators answer, every run of `handle`, `handleTags` and
`handleReferrers` reads the request body and calls the manifest and blob stores only after
the authorizer has answered `nil` for `repo` with the action of its method, and only in
`repo`. -/
theorem authorization_precedes_access (caps : BlobCaps) (req : Request D)
    {repo target : String} (hpath : repoTarget req.path = some (repo, target))
    {es : List (Ev D)} {q : Handler D (Option RegError)} :
    ((handle caps req).Steps es q → AccessAfter (manifestGrant req.method repo target) repo es) ∧
    ((handleTags req).Steps es q → AccessAfter (tagsGrant req.method repo) repo es) ∧
    ((handleReferrers req).Steps es q →
      AccessAfter (referrersGrant req.method repo target) repo es) :=
  ⟨(handle_granted caps req hpath).of_steps, (handleTags_granted req hpath).of_steps,
    (handleReferrers_granted req hpath).of_steps⟩

/-- A push of `v1` to `acme/app`, run against the empty stores, accesses them only after its
`Write` grant. -/
theorem authorization_precedes_access_push :
    ∃ es res, (handle ⟨true, true⟩ (⟨"PUT", "/v2/acme/app/manifests/v1", [], "text/plain",
        .ok Json.null⟩ : Request jsonDeps)).Steps es (.pure res) ∧
      AccessAfter (manifestGrant "PUT" "acme/app" "v1") "acme/app" es := by
  have hrun : Exec false (.ok Json.null) (handle ⟨true, true⟩ (⟨"PUT",
      "/v2/acme/app/manifests/v1", [], "text/plain", .ok Json.null⟩ : Request jsonDeps))
      State.empty _ _ := Exec.of_respond rfl
  exact ⟨_, _, hrun.1, (authorization_precedes_access _ _ (by decide)).1 hrun.1⟩

end DistrRegistry
