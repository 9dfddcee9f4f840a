/-
What the writes of a request are.  Of the calls the handlers make only the blob `Put` and the
transaction write, and only `handlePut` makes them.  Whatever the collaborators answer, a blob
`Put` stores a body that reading the request gave, under its digest; a transaction records the
push of that body under its digest and under the path's target, after the blob `Put` of the
body succeeded and after every sub-manifest an index body lists was found (`PushCall`).

`Holds` is what an answer says about the stores that stays true while they grow: a manifest
found stays found, bytes stored stay stored, and the bytes a read or a stat was answered with
stay an entry of the blob store.
-/
import DistrRegistry.Put

namespace DistrRegistry

open Prog

variable {D : Deps}

/-- Modelled from the spec: the URL classifier, which hands a request to the handler of its
path's shape.  Any other path is a blob request, outside this component. -/
def route (caps : BlobCaps) (req : Request D) : Option (Handler D (Option RegError)) :=
  if isManifest req.path then some (handle caps req)
  else if isTags req.path then some (handleTags req)
  else if isCatalog req.path then some (handleCatalog req)
  else if isReferrers req.path then some (handleReferrers req)
  else none

/-- A descriptor of an index that must already be recorded: distributable, and an image or an
index. -/
def required (desc : Descriptor) : Bool :=
  MediaType.isDistributable desc.mediaType &&
    (MediaType.isIndex desc.mediaType || MediaType.isImage desc.mediaType)

/-- The blobs a push of `buf` records when its checks pass. -/
def dependencies (contentType : String) (buf : D.Body) : List Blob :=
  if MediaType.isIndex contentType then
    match D.parseIndexManifest buf with
    | .error _ => []
    | .ok im => (im.manifests.filter required).map fun d => ⟨d.digest, d.size⟩
  else if MediaType.isImage contentType then
    match D.parseManifest buf with
    | .error _ => []
    | .ok m => imageDependencies m
  else []

/-- A push: a body sent to a target of a repository, with a content type. -/
structure Push (D : Deps) where
  repo : String
  target : String
  contentType : String
  body : D.Body

/-- The push a request asks for: the repository and target of its path, its content type and
its body. -/
def Request.push (req : Request D) : Option (Push D) :=
  match repoTarget req.path, req.body with
  | some (repo, target), .ok body => some ⟨repo, target, req.contentType, body⟩
  | _, _ => none

namespace Push

/-- The record a push stores. -/
def manifest (p : Push D) : Manifest := putManifest p.contentType p.body

/-- The `Put`s of the push's transaction. -/
def puts (p : Push D) : List PutRequest :=
  putRequests p.repo p.target p.manifest (dependencies p.contentType p.body)

end Push

/-- A body sent with `contentType` is an index listing `reference` as a sub-manifest that must
be recorded. -/
def Requires (contentType : String) (buf : D.Body) (reference : String) : Prop :=
  MediaType.isIndex contentType ∧ ∃ im, D.parseIndexManifest buf = .ok im ∧
    ∃ d ∈ im.manifests, required d ∧ d.digest.toString = reference

/-- What a writing call of a run of `req`'s handler is, given the calls `pre` before it: a blob
`Put` of a body read from the request, under the body's digest; or the transaction of a push
of the request, made after the blob `Put` of its body succeeded and after each sub-manifest it
requires was found. -/
def PushCall (req : Request D) (pre : List (Ev D)) : Ev D → Prop
  | ⟨.blobPut _ digest _ body, _⟩ => digest = D.sha256 body ∧ (⟨.readBody, .ok body⟩ : Ev D) ∈ pre
  | ⟨.runTx puts, _⟩ => ∃ p : Push D,
    repoTarget req.path = some (p.repo, p.target) ∧ p.contentType = req.contentType ∧
    (⟨.readBody, .ok p.body⟩ : Ev D) ∈ pre ∧ puts = p.puts ∧
    (⟨.blobPut p.repo (D.sha256 p.body) p.contentType p.body, none⟩ : Ev D) ∈ pre ∧
    ∀ reference, Requires p.contentType p.body reference →
      ∃ m, (⟨.manifestGet p.repo reference, .ok m⟩ : Ev D) ∈ pre
  | _ => True

theorem pushCall_of_writes_false {req : Request D} {pre : List (Ev D)} {e : Ev D}
    (h : e.1.writes = false) : PushCall req pre e := by
  obtain ⟨c, r⟩ := e
  cases c <;> trivial

/-- A program that never writes makes only `PushCall`s. -/
theorem Prog.Always.pushCall {α : Type} {p : Handler D α} (hp : p.Always fun e => e.1.writes = false)
    (req : Request D) (pre₀ : List (Ev D)) : p.Safe fun pre e => PushCall req (pre₀ ++ pre) e :=
  Safe.mono hp fun _ _ => pushCall_of_writes_false

/-! The checks before a push's writes. -/

theorem indexDependencies_spec (repo : String) (acc : List Blob) (ds : List Descriptor) :
    (indexDependencies (D := D) repo acc ds).Wp fun es res => ∀ blobs, res = .ok blobs →
      blobs = acc ++ (ds.filter required).map (fun d => ⟨d.digest, d.size⟩) ∧
      ∀ d ∈ ds, required d →
        ∃ m, (⟨.manifestGet repo d.digest.toString, .ok m⟩ : Ev D) ∈ es := by
  induction ds generalizing acc with
  | nil => simp [indexDependencies]
  | cons desc rest ih =>
    have hskip : required desc = false → (indexDependencies (D := D) repo acc rest).Wp
        fun es res => ∀ blobs, res = .ok blobs →
          blobs = acc ++ ((desc :: rest).filter required).map (fun d => ⟨d.digest, d.size⟩) ∧
          ∀ d ∈ desc :: rest, required d →
            ∃ m, (⟨.manifestGet repo d.digest.toString, .ok m⟩ : Ev D) ∈ es := fun hd =>
      (ih acc).mono fun es res h blobs hres => by
        obtain ⟨hb, hm⟩ := h blobs hres
        refine ⟨by rw [hb, List.filter_cons_of_neg (by simp [hd])], ?_⟩
        rintro d (_ | ⟨_, hd'⟩) hr
        · exact absurd hr (by simp [hd])
        · exact hm d hd' hr
    unfold indexDependencies
    split
    · rename_i hdist
      exact hskip (by simp only [required, Bool.and_eq_false_iff]; exact .inl (by simpa using hdist))
    · rename_i hdist
      split
      · rename_i hkind
        simp only [manifestGet, call_bind, Prog.pure_bind, pure_eq, wp_call, wp_pure, Call.Ret,
          except_forall, reduceCtorEq, false_implies, implies_true, true_and]
        intro m
        refine (ih _).mono fun es res h blobs hres => ?_
        obtain ⟨hb, hm⟩ := h blobs hres
        have hd : required desc = true := by
          simp only [required, Bool.and_eq_true]
          exact ⟨by simpa using hdist, hkind⟩
        refine ⟨by simp [hb, List.filter_cons_of_pos hd], ?_⟩
        rintro d (_ | ⟨_, hd'⟩) hr
        · exact ⟨m, List.mem_cons_self _ _⟩
        · obtain ⟨m', hm'⟩ := hm d hd' hr
          exact ⟨m', List.mem_cons_of_mem _ hm'⟩
      · rename_i hkind
        exact hskip (by simp only [required, Bool.and_eq_false_iff]; exact .inr (by simpa using hkind))

/-- The blobs `putDependencies` collects are `dependencies`, and every sub-manifest an index
requires was found. -/
theorem putDependencies_spec (repo contentType : String) (buf : D.Body) :
    (putDependencies repo contentType buf).Wp fun es res => ∀ blobs, res = .ok blobs →
      blobs = dependencies contentType buf ∧
      ∀ reference, Requires contentType buf reference →
        ∃ m, (⟨.manifestGet repo reference, .ok m⟩ : Ev D) ∈ es := by
  unfold putDependencies
  split
  · rename_i hidx
    split
    · exact fun _ h => by cases h
    · rename_i im him
      refine (indexDependencies_spec repo [] _).mono fun es res h blobs hres => ?_
      obtain ⟨hb, hm⟩ := h blobs hres
      refine ⟨by simp [hb, dependencies, hidx, him], ?_⟩
      rintro _ ⟨-, im', him', d, hd, hr, rfl⟩
      cases him.symm.trans him'
      exact hm d hd hr
  · rename_i hidx
    have hreq : ∀ reference, ¬ Requires contentType buf reference :=
      fun _ h => hidx h.1
    split
    · split
      · exact fun _ h => by cases h
      · rename_i m hm
        exact fun _ h => by cases h; exact ⟨by simp [dependencies, hidx, *], fun _ h => absurd h (hreq _)⟩
    · exact fun _ h => by cases h; exact ⟨by simp [dependencies, hidx, *], fun _ h => absurd h (hreq _)⟩

/-! Which handlers write, and how. -/

/-- Every write of `handlePutBuffer` is a `PushCall` of the request, after the calls `pre₀`
that read `buf` from it. -/
theorem handlePutBuffer_pushCall (caps : BlobCaps) (req : Request D) {repo target : String}
    (hpath : repoTarget req.path = some (repo, target)) (buf : D.Body) (pre₀ : List (Ev D))
    (hbody : (⟨.readBody, .ok buf⟩ : Ev D) ∈ pre₀) :
    (handlePutBuffer caps req repo target buf).Safe fun pre e => PushCall req (pre₀ ++ pre) e := by
  unfold handlePutBuffer
  refine safe_bind.mpr ⟨(putDependencies_writes repo _ buf).pushCall req pre₀,
    (putDependencies_spec repo _ buf).mono ?_⟩
  rintro es (e | blobs) h <;> dsimp only
  · exact safe_pure
  · obtain ⟨hblobs, hreq⟩ := h blobs rfl
    split
    · exact safe_pure
    · split
      · exact safe_pure
      · simp only [blobPut, runTx, setHeader, writeHeader, call_bind, Prog.pure_bind, pure_eq,
          safe_call, safe_pure, Call.Ret, Option.forall, PushCall.eq_1, PushCall.eq_2, and_true]
        refine ⟨⟨?blobPut, ⟨?runTx, fun _ => ⟨trivial, fun _ => ⟨trivial, fun _ => ⟨trivial,
          fun _ => trivial⟩⟩⟩⟩, fun _ => ?runTx⟩, fun _ => ?blobPut⟩
        case blobPut => exact ⟨rfl, List.mem_append_left _ hbody⟩
        case runTx =>
          refine ⟨⟨repo, target, req.contentType, buf⟩, hpath, rfl, List.mem_append_left _ hbody,
            by rw [hblobs]; rfl,
            List.mem_append_right _ (List.mem_append_right _ (List.mem_singleton_self _)),
            fun reference hr => ?_⟩
          obtain ⟨m, hm⟩ := hreq reference hr
          exact ⟨m, List.mem_append_right _ (List.mem_append_left _ hm)⟩

theorem handlePut_pushCall (caps : BlobCaps) (req : Request D) {repo target : String}
    (hpath : repoTarget req.path = some (repo, target)) (pre₀ : List (Ev D)) :
    (handlePut caps req repo target).Safe fun pre e => PushCall req (pre₀ ++ pre) e := by
  simp only [handlePut, readBody, call_bind, Prog.pure_bind, safe_call, Call.Ret, except_forall]
  refine ⟨fun _ => ⟨trivial, safe_pure⟩, fun buf => ⟨trivial, ?_⟩⟩
  refine (handlePutBuffer_pushCall caps req hpath buf (pre₀ ++ [_])
    (List.mem_append_right _ (List.mem_singleton_self _))).mono fun pre e h => ?_
  simpa using h

/-- An authorization in front of a handler: the handler's `PushCall`s, after the grant. -/
theorem authorizedReference_pushCall {req : Request D} {repo target : String} {action : Action}
    {next : Handler D (Option RegError)}
    (hnext : next.Safe fun pre e =>
      PushCall req ([⟨.authorizeReference repo target action, none⟩] ++ pre) e) :
    (authorizedReference repo target action next).Safe (PushCall req) := by
  simp only [authorizedReference, authorizeReference, call_bind, Prog.pure_bind, safe_call,
    Call.Ret, Option.forall]
  exact ⟨⟨trivial, hnext⟩, fun _ => ⟨trivial, safe_pure⟩⟩

theorem handleGet_writes (req : Request D) (repo target : String) :
    (handleGet req repo target).Always fun e => e.1.writes = false := by
  simp only [handleGet, manifestGet, blobGet, auditPull, redirect, setHeader, writeHeader, write,
    call_bind, Prog.pure_bind, pure_eq, always_call, always_pure, Call.Ret, except_forall,
    Option.forall, Call.writes, and_true, true_and, implies_true, forall_const]
  intro m e
  split <;> simp [Call.writes]

theorem handleHead_writes (caps : BlobCaps) (repo target : String) :
    (handleHead (D := D) caps repo target).Always fun e => e.1.writes = false := by
  simp only [handleHead, manifestGet, blobStat, auditPull, setHeader, writeHeader, call_bind,
    Prog.pure_bind, pure_eq, always_call, always_pure, Call.Ret, except_forall, Call.writes,
    and_true, true_and, implies_true, forall_const]
  intro m
  split <;> simp [Call.writes, Call.Ret, except_forall]

theorem writeJson_writes (j : Json) :
    (writeJson (D := D) j).Always fun e => e.1.writes = false := by
  simp only [writeJson, setHeader, writeHeader, write, call_bind, Prog.pure_bind, pure_eq,
    always_call, always_pure, Call.Ret, Option.forall, Call.writes, and_true, true_and,
    implies_true, forall_const]

theorem handleTags_writes (req : Request D) :
    (handleTags req).Always fun e => e.1.writes = false := by
  unfold handleTags
  split
  · exact fun r => r.elim
  · split
    · simp only [authorize, call_bind, Prog.pure_bind, pure_eq, always_call, Call.Ret,
        Option.forall, Call.writes, true_and]
      refine ⟨?_, fun _ => always_pure⟩
      split
      · exact always_pure
      · simp only [manifestListTags, call_bind, Prog.pure_bind, always_call, always_pure,
          Call.Ret, except_forall, Call.writes, true_and, implies_true]
        exact fun _ => writeJson_writes _
    · exact always_pure

theorem handleCatalog_writes (req : Request D) :
    (handleCatalog req).Always fun e => e.1.writes = false := by
  unfold handleCatalog
  split
  · simp only [manifestList, call_bind, Prog.pure_bind, pure_eq, always_call, always_pure,
      Call.Ret, except_forall, Call.writes, true_and, implies_true]
    exact fun _ => writeJson_writes _
  · exact always_pure

theorem referrersLoop_writes (repo target : String) (found : List Descriptor) (ds : List Hash) :
    (referrersLoop (D := D) repo target found ds).Always fun e => e.1.writes = false := by
  induction ds generalizing found with
  | nil => exact always_pure
  | cons reference rest ih =>
    simp only [referrersLoop, manifestGet, blobGet, call_bind, Prog.pure_bind, pure_eq,
      always_call, always_pure, Call.Ret, except_forall, Call.writes, and_true, true_and,
      implies_true, forall_const]
    intro m buf
    split
    · exact ih found
    · split
      · exact ih found
      · exact ih _

theorem handleReferrers_writes (req : Request D) :
    (handleReferrers req).Always fun e => e.1.writes = false := by
  unfold handleReferrers
  split
  · exact always_pure
  · split
    · exact fun r => r.elim
    · simp only [authorizedReference, authorizeReference, call_bind, Prog.pure_bind, pure_eq,
        always_call, Call.Ret, Option.forall, Call.writes, true_and]
      refine ⟨?_, fun _ => always_pure⟩
      split
      · exact always_pure
      · simp only [manifestListDigests, call_bind, Prog.pure_bind, always_call, always_pure,
          Call.Ret, except_forall, Call.writes, true_and, implies_true]
        refine fun ds => always_bind (referrersLoop_writes _ _ [] ds) fun found => ?_
        rcases found with e | found <;> dsimp only
        · exact always_pure
        · simp only [setHeader, writeHeader, write, call_bind, Prog.pure_bind, pure_eq,
            always_call, always_pure, Call.Ret, Option.forall, Call.writes, and_true, true_and,
            implies_true, forall_const]

/-- Every write of `handle` is a `PushCall` of the request. -/
theorem handle_pushCall (caps : BlobCaps) (req : Request D) : (handle caps req).Safe (PushCall req) := by
  unfold handle
  split
  · exact fun r => r.elim
  · rename_i hpath
    split
    · exact authorizedReference_pushCall ((handleGet_writes _ _ _).pushCall req _)
    · split
      · exact authorizedReference_pushCall ((handleHead_writes caps _ _).pushCall req _)
      · split
        · exact authorizedReference_pushCall (handlePut_pushCall caps req hpath _)
        · exact safe_pure

/-- Every write of every handler the classifier routes to is a `PushCall` of the request. -/
theorem route_pushCall {caps : BlobCaps} {req : Request D} {p : Handler D (Option RegError)}
    (h : route caps req = some p) : p.Safe (PushCall req) := by
  unfold route at h
  split at h
  · cases h
    exact handle_pushCall caps req
  · have hread : p.Always fun e => e.1.writes = false := by
      split at h
      · cases h; exact handleTags_writes req
      · split at h
        · cases h; exact handleCatalog_writes req
        · split at h
          · cases h; exact handleReferrers_writes req
          · cases h
    exact (hread.pushCall req []).mono fun _ _ h => h

/-- The router never hands a request to a handler that panics at its path parse: `handle`,
`handleTags` and `handleReferrers` parse the path first, and their classifiers accept only
paths whose parse is in range; `handleCatalog` parses nothing. -/
theorem route_parse_in_bounds {caps : BlobCaps} {req : Request D}
    {p : Handler D (Option RegError)} (h : route caps req = some p) (message : String)
    (k : (Call.goPanic message : Call D).Ret → Handler D (Option RegError)) :
    p ≠ .call (.goPanic message) k := by
  unfold route at h
  split at h
  · cases h
    obtain ⟨repo, target, hparse⟩ := repoTarget_of_isRoute ‹isManifest req.path = true›
    rw [handle, hparse]
    dsimp only
    split_ifs <;> nofun
  split at h
  · cases h
    obtain ⟨repo, target, hparse⟩ := repoTarget_of_isRoute ‹isTags req.path = true›
    rw [handleTags, hparse]
    dsimp only
    split_ifs <;> nofun
  split at h
  · cases h
    unfold handleCatalog
    split_ifs <;> nofun
  split at h
  · cases h
    obtain ⟨repo, target, hparse⟩ := repoTarget_of_isRoute ‹isReferrers req.path = true›
    unfold handleReferrers
    rw [hparse]
    dsimp only
    split_ifs <;> nofun
  · cases h

/-! What answers say about the stores. -/

/-- What the answer of `e` says about the stores that stays true while they grow: the manifest
found is recorded, the bytes put are stored, the bytes read or the length stated are those of
an entry of the blob store. -/
def Holds (σ : State D) : Ev D → Prop
  | ⟨.manifestGet repo reference, .ok _⟩ => (σ.find repo reference).isSome
  | ⟨.blobPut repo digest _ _, none⟩ => (σ.blob repo digest).isSome
  | ⟨.blobGet repo digest _, .ok (.ok b)⟩ => (repo, digest, b) ∈ σ.blobs
  | ⟨.blobStat repo digest, .ok l⟩ => ∃ b, (repo, digest, b) ∈ σ.blobs ∧ (D.len b : Int) = l
  | _ => True

theorem State.Extends.mem_blobs {σ σ' : State D} (h : σ.Extends σ') {x : String × Hash × D.Body}
    (hx : x ∈ σ.blobs) : x ∈ σ'.blobs := by
  obtain ⟨_, ys, hy⟩ := h
  exact hy ▸ List.mem_append_right _ hx

theorem State.mem_blobs_of_blob {σ : State D} {repo : String} {digest : Hash} {b : D.Body}
    (h : σ.blob repo digest = some b) : (repo, digest, b) ∈ σ.blobs := by
  obtain ⟨x, hx, rfl⟩ := Option.map_eq_some'.mp h
  have hmatch := List.find?_some hx
  simp only [Bool.and_eq_true, beq_iff_eq] at hmatch
  obtain ⟨r, d, b⟩ := x
  obtain ⟨rfl, rfl⟩ := hmatch
  exact List.mem_of_find?_eq_some hx

/-- The stores answer a read of a blob with bytes only when they hold those bytes. -/
theorem BlobAnswer.held {redirect : Bool} {o : Option D.Body} {b : D.Body}
    (h : BlobAnswer redirect o (.ok (.ok b))) : o = some b := by
  cases o with
  | none => obtain ⟨_, he, -⟩ := h; cases he
  | some b' =>
    rcases h with h | ⟨-, _, he, -⟩
    · cases h; rfl
    · cases he

/-- The stores answer a stat with a length only when they hold bytes of that length. -/
theorem StatAnswer.held {o : Option D.Body} {l : Int} (h : StatAnswer o (.ok l)) :
    ∃ b, o = some b ∧ (D.len b : Int) = l := by
  cases o with
  | none => obtain ⟨_, he⟩ := h; cases he
  | some b => cases h; exact ⟨b, rfl, rfl⟩

theorem Holds.mono {σ σ' : State D} (h : σ.Extends σ') {e : Ev D} (he : Holds σ e) :
    Holds σ' e := by
  obtain ⟨c, r⟩ := e
  cases c <;> try trivial
  case manifestGet =>
    cases r
    · trivial
    · exact h.find_isSome he
  case blobGet =>
    rcases r with _ | _ | _
    · trivial
    · trivial
    · exact h.mem_blobs he
  case blobStat =>
    cases r
    · trivial
    · obtain ⟨b, hb, hl⟩ := he
      exact ⟨b, h.mem_blobs hb, hl⟩
  case blobPut =>
    cases r
    · exact h.blob_isSome he
    · trivial

/-- An answer the stores allow holds in the stores it leaves. -/
theorem holds_apply {redirects : Bool} {body : Except Err D.Body} {σ : State D} {e : Ev D}
    (h : Answers redirects body σ e) : Holds (σ.apply e) e := by
  obtain ⟨c, r⟩ := e
  cases c <;> try trivial
  case manifestGet =>
    rcases r with _ | m
    · trivial
    · change Except.ok m = σ.get _ _ at h
      unfold State.get at h
      split at h
      · rename_i hfind
        show (σ.find _ _).isSome
        rw [hfind]
        rfl
      · cases h
  case blobGet =>
    rcases r with _ | _ | b
    · trivial
    · trivial
    · exact State.mem_blobs_of_blob (BlobAnswer.held h)
  case blobStat =>
    rcases r with _ | l
    · trivial
    · obtain ⟨b, hb, hl⟩ := StatAnswer.held h
      exact ⟨b, State.mem_blobs_of_blob hb, hl⟩
  case blobPut =>
    rcases r with _ | e
    · show (((_ :: σ.blobs).find? _).map _).isSome
      rw [List.find?_cons_of_pos _ (by simp only [beq_self_eq_true, Bool.and_self])]
      rfl
    · trivial

end DistrRegistry
