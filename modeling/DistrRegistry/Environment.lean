/-
What the collaborators of the handlers do, as the spec describes their interfaces: their code
is not part of this repository.  The manifest store records, per repository and reference, the
manifest and blobs of the last `Put`, and `RunTx` makes the `Put`s of its function all or
none.  The blob store keeps bytes per repository and digest.  `Answers` says which answers a
call may get in a state, `State.apply` what an answered call does to it; `Exec` is a complete
run of a handler against the stores.

`Response` folds the calls on the `http.ResponseWriter` into what the client receives, with
what `http.Redirect` writes on it.
-/
import Mathlib.Data.List.Dedup
import DistrRegistry.Call
import DistrRegistry.Path

namespace DistrRegistry

/-- Modelled from the spec: the tables of the manifest store and of the blob store, newest
entry first. -/
structure State (D : Deps) where
  manifests : List PutRequest
  blobs : List (String × Hash × D.Body)

namespace State

variable {D : Deps}

/-- The stores before any push. -/
def empty : State D := ⟨[], []⟩

/-- The entry for `reference` in `repo`: the newest one. -/
def find (σ : State D) (repo reference : String) : Option PutRequest :=
  σ.manifests.find? fun p => p.repo == repo && p.reference == reference

/-- Modelled from the spec: `ManifestHandler.Get`.  A reference with no entry is
`ErrManifestUnknown` in a repository with entries and `ErrNameUnknown` in one without. -/
def get (σ : State D) (repo reference : String) : Except Err Manifest :=
  match σ.find repo reference with
  | some p => .ok p.manifest
  | none => .error (.sentinel
      (if σ.manifests.any (·.repo == repo) then .manifestUnknown else .nameUnknown))

/-- The bytes the blob store holds for `digest` in `repo`: the newest ones. -/
def blob (σ : State D) (repo : String) (digest : Hash) : Option D.Body :=
  (σ.blobs.find? fun b => b.1 == repo && b.2.1 == digest).map (·.2.2)

/-- What an answered call does to the stores: a transaction answered `nil` has committed its
`Put`s in order, a blob `Put` answered `nil` has stored its bytes; nothing else writes. -/
def apply (σ : State D) : Ev D → State D
  | ⟨.runTx puts, none⟩ => { σ with manifests := puts.reverse ++ σ.manifests }
  | ⟨.blobPut repo digest _ body, none⟩ => { σ with blobs := (repo, digest, body) :: σ.blobs }
  | _ => σ

/-- `σ'` holds every entry of `σ`, and maybe newer ones. -/
def Extends (σ σ' : State D) : Prop :=
  (∃ xs, σ'.manifests = xs ++ σ.manifests) ∧ ∃ ys, σ'.blobs = ys ++ σ.blobs

theorem Extends.refl (σ : State D) : σ.Extends σ := ⟨⟨[], rfl⟩, ⟨[], rfl⟩⟩

theorem Extends.trans {σ σ' σ'' : State D} (h : σ.Extends σ') (h' : σ'.Extends σ'') :
    σ.Extends σ'' := by
  obtain ⟨⟨xs, hx⟩, ⟨ys, hy⟩⟩ := h
  obtain ⟨⟨xs', hx'⟩, ⟨ys', hy'⟩⟩ := h'
  exact ⟨⟨xs' ++ xs, by rw [hx', hx, List.append_assoc]⟩,
    ⟨ys' ++ ys, by rw [hy', hy, List.append_assoc]⟩⟩

/-- No call removes an entry. -/
theorem extends_apply (σ : State D) (e : Ev D) : σ.Extends (σ.apply e) := by
  obtain ⟨c, r⟩ := e
  cases c <;> try exact Extends.refl σ
  · cases r
    exacts [⟨⟨_, rfl⟩, ⟨[], rfl⟩⟩, Extends.refl σ]
  · cases r
    exacts [⟨⟨[], rfl⟩, ⟨[_], rfl⟩⟩, Extends.refl σ]

theorem find?_append_isSome {α : Type} {p : α → Bool} {xs ys : List α}
    (h : (ys.find? p).isSome) : ((xs ++ ys).find? p).isSome := by
  rw [List.find?_append]
  cases xs.find? p <;> simp [h]

theorem Extends.find_isSome {σ σ' : State D} (h : σ.Extends σ') {repo reference : String}
    (hf : (σ.find repo reference).isSome) : (σ'.find repo reference).isSome := by
  obtain ⟨⟨xs, hx⟩, _⟩ := h
  simp only [find, hx]
  exact find?_append_isSome hf

theorem Extends.blob_isSome {σ σ' : State D} (h : σ.Extends σ') {repo : String} {digest : Hash}
    (hb : (σ.blob repo digest).isSome) : (σ'.blob repo digest).isSome := by
  obtain ⟨_, ⟨ys, hy⟩⟩ := h
  simp only [blob, hy, Option.isSome_map'] at hb ⊢
  exact find?_append_isSome hb

/-- `ListDigests(repo)`: each digest-form reference of `repo` once. -/
def ListsDigests (σ : State D) (repo : String) (ds : List Hash) : Prop :=
  ds.Nodup ∧ ∀ h, h ∈ ds ↔ h.Valid ∧ (σ.find repo h.toString).isSome

end State

variable {D : Deps}

/-- A call that writes to a store: the transaction, or the blob `Put`. -/
def Call.writes : Call D → Bool
  | .runTx _ | .blobPut .. => true
  | _ => false

/-- A transaction answered `nil`: it committed. -/
def committed : Ev D → Bool
  | ⟨.runTx _, none⟩ => true
  | _ => false

theorem State.apply_of_writes_false {σ : State D} {e : Ev D} (h : e.1.writes = false) :
    σ.apply e = σ := by
  obtain ⟨c, r⟩ := e
  cases c <;> first | rfl | cases h

theorem State.manifests_apply_of_committed_false {σ : State D} {e : Ev D}
    (h : committed e = false) : (σ.apply e).manifests = σ.manifests := by
  obtain ⟨c, r⟩ := e
  cases c <;> try rfl
  · cases r
    · cases h
    · rfl
  · cases r <;> rfl

theorem after_of_writes_false {σ : State D} {es : List (Ev D)}
    (h : ∀ e ∈ es, e.1.writes = false) : Prog.after State.apply σ es = σ := by
  induction es generalizing σ with
  | nil => rfl
  | cons e es ih =>
    simp only [List.mem_cons, forall_eq_or_imp] at h
    rw [Prog.after_cons, State.apply_of_writes_false h.1, ih h.2]

theorem manifests_after_of_committed_false {σ : State D} {es : List (Ev D)}
    (h : ∀ e ∈ es, committed e = false) :
    (Prog.after State.apply σ es).manifests = σ.manifests := by
  induction es generalizing σ with
  | nil => rfl
  | cons e es ih =>
    simp only [List.mem_cons, forall_eq_or_imp] at h
    rw [Prog.after_cons, ih h.2, State.manifests_apply_of_committed_false h.1]

/-- Modelled from the spec: what a blob `Get` may answer for the bytes held.  Bytes held are
delivered or, where a redirect is allowed, redirected to; bytes not held are an error that
is no redirect. -/
def BlobAnswer (redirect : Bool) : Option D.Body → Except Err (Except Err D.Body) → Prop
  | some b, r => r = .ok (.ok b) ∨ (redirect = true ∧ ∃ e, r = .error e ∧ e.asRedirect.isSome)
  | none, r => ∃ e, r = .error e ∧ e.asRedirect = none

/-- Modelled from the spec: `Stat` answers the length of the bytes held, and fails on bytes
not held. -/
def StatAnswer : Option D.Body → Except Err Int → Prop
  | some b, r => r = .ok (D.len b)
  | none, r => ∃ e, r = .error e

/-- Modelled from the spec: `ListDigests` answers the digest-form references, or
`ErrNameUnknown` for a repository with no entry. -/
def DigestsAnswer (σ : State D) (repo : String) : Except Err (List Hash) → Prop
  | .ok ds => σ.ListsDigests repo ds
  | .error e => e = .sentinel .nameUnknown ∧ σ.manifests.all (·.repo != repo)

/-- The answers a call may get from the stores in `σ`, for a request whose body reads as
`body`, against a blob store that redirects where `redirects` allows.  The authorizer, the
auditor, the response writer, the listings of tags and repositories and the writes to the
stores may answer anything; a write that fails changes nothing (`State.apply`). -/
def Answers (redirects : Bool) (body : Except Err D.Body) (σ : State D) : Ev D → Prop
  | ⟨.readBody, r⟩ => r = body
  | ⟨.manifestGet repo reference, r⟩ => r = σ.get repo reference
  | ⟨.manifestListDigests repo, r⟩ => DigestsAnswer σ repo r
  | ⟨.blobGet repo digest allowRedirect, r⟩ =>
    BlobAnswer (redirects && allowRedirect) (σ.blob repo digest) r
  | ⟨.blobStat repo digest, r⟩ => StatAnswer (σ.blob repo digest) r
  | ⟨.authorize .., _⟩ | ⟨.authorizeReference .., _⟩ | ⟨.manifestListTags .., _⟩ => True
  | ⟨.manifestList _, _⟩ | ⟨.runTx _, _⟩ | ⟨.blobPut .., _⟩ | ⟨.auditPull .., _⟩ => True
  | ⟨.setHeader .., _⟩ | ⟨.writeHeader _, _⟩ | ⟨.write _, _⟩ | ⟨.redirect .., _⟩ => True
  | ⟨.goPanic _, _⟩ => True

/-- A complete run of `p` against the stores in `σ`: its calls `es`, each answered as the
stores allow, and its result `a`.  The stores are left in `Prog.after State.apply σ es`. -/
def Exec (redirects : Bool) (body : Except Err D.Body) {α : Type} (p : Handler D α)
    (σ : State D) (es : List (Ev D)) (a : α) : Prop :=
  p.Steps es (.pure a) ∧ Prog.Allowed (Answers redirects body) State.apply σ es

namespace State

/-- The digest-form references of `repo`, each once. -/
def digests (σ : State D) (repo : String) : List Hash :=
  (σ.manifests.filterMap fun p => if p.repo = repo then newHash p.reference else none).dedup

theorem find_isSome_iff {σ : State D} {repo reference : String} :
    (σ.find repo reference).isSome ↔ ∃ p ∈ σ.manifests, p.repo = repo ∧ p.reference = reference := by
  simp [find, List.find?_isSome]

theorem listsDigests_digests (σ : State D) (repo : String) :
    σ.ListsDigests repo (σ.digests repo) := by
  refine ⟨List.nodup_dedup _, fun h => ?_⟩
  simp only [digests, List.mem_dedup, List.mem_filterMap, find_isSome_iff]
  constructor
  · rintro ⟨p, hp, hh⟩
    split at hh
    · obtain ⟨hv, hs⟩ := newHash_eq_some_iff.mp hh
      exact ⟨hv, p, hp, ‹_›, hs.symm⟩
    · cases hh
  · rintro ⟨hv, p, hp, rfl, hs⟩
    exact ⟨p, hp, by rw [if_pos rfl, hs, newHash_toString hv]⟩

/-- A store that works: it answers every call as `Answers` allows and lets every write
succeed.  Its blob store sends the redirect `redirect`, if any, wherever one is allowed. -/
def respond (redirect : Option (String × Nat)) (body : Except Err D.Body) (σ : State D) :
    (c : Call D) → Option c.Ret
  | .readBody => some body
  | .manifestGet repo reference => some (σ.get repo reference)
  | .manifestListDigests repo => some (.ok (σ.digests repo))
  | .blobGet repo digest allowRedirect =>
    some (match σ.blob repo digest, redirect with
      | some b, some (location, code) =>
        if allowRedirect then .error (.redirect location code) else .ok (.ok b)
      | some b, none => .ok (.ok b)
      | none, _ => .error (.other "blob unknown"))
  | .blobStat repo digest =>
    some ((σ.blob repo digest).elim (.error (.other "blob unknown")) fun b => .ok (D.len b))
  | .authorize .. | .authorizeReference .. => some none
  | .manifestListTags .. | .manifestList _ => some (.ok none)
  | .runTx _ | .blobPut .. | .auditPull .. | .write _ => some none
  | .setHeader .. | .writeHeader _ | .redirect .. => some ()
  | .goPanic _ => none

theorem respond_answers {redirects : Bool} {redirect : Option (String × Nat)}
    (hr : redirect = none ∨ redirects = true) (body : Except Err D.Body) (σ : State D)
    (c : Call D) (r : c.Ret) (h : σ.respond redirect body c = some r) :
    Answers redirects body σ ⟨c, r⟩ := by
  cases c <;> simp only [respond, Option.some.injEq] at h <;> try trivial
  all_goals subst h; simp only [Answers]
  · exact listsDigests_digests σ _
  · rcases σ.blob _ _ with _ | b <;> rcases redirect with _ | ⟨location, code⟩ <;>
      simp only [BlobAnswer, Err.asRedirect] <;> try split
    all_goals simp_all [Err.asRedirect]
  · cases σ.blob _ _ <;> simp [StatAnswer]

end State

/-- A run against a working store is a run the stores allow. -/
theorem Exec.of_run {redirects : Bool} {redirect : Option (String × Nat)}
    (hr : redirect = none ∨ redirects = true) {body : Except Err D.Body} {α : Type}
    {p : Handler D α} {σ : State D} {es : List (Ev D)} {a : α}
    (h : Prog.run State.apply (State.respond redirect body) p σ = some (es, a)) :
    Exec redirects body p σ es a :=
  ⟨Prog.run_steps h, Prog.run_allowed (State.respond_answers hr body) h⟩

/-- A run against the working store that never redirects is a run the stores allow. -/
theorem Exec.of_respond {redirects : Bool} {body : Except Err D.Body} {α : Type}
    {p : Handler D α} {σ : State D} {es : List (Ev D)} {a : α}
    (h : Prog.run State.apply (State.respond none body) p σ = some (es, a)) :
    Exec redirects body p σ es a :=
  Exec.of_run (Or.inl rfl) h

theorem Exec.of_wpIn {redirects : Bool} {body : Except Err D.Body} {α : Type}
    {p : Handler D α} {σ : State D} {post : List (Ev D) → α → Prop}
    (hp : p.WpIn (Answers redirects body) State.apply σ post) {es : List (Ev D)} {a : α}
    (h : Exec redirects body p σ es a) : post es a :=
  Prog.wpIn_iff.mp hp es a h.1 h.2

/-! What `http.Redirect(w, r, url, code)` sends. -/

/-- `path.Split`'s directory: `p` up to and including its last `/`. -/
def pathDir (p : String) : String := String.mk (p.toList.reverse.dropWhile (· ≠ '/')).reverse

/-- The URL `http.Redirect` sends for `url` on a request whose URL path is `path`: a relative
`url` is made absolute against the path's directory and cleaned, its query and a trailing
slash kept. -/
def redirectUrl (D : Deps) (path url : String) : String :=
  if D.urlRelative url then
    let oldpath := if path = "" then "/" else path
    let url := if hasPrefix url "/" then url else pathDir oldpath ++ url
    let parts := url.toList.span (· ≠ '?')
    let cleaned := pathClean (String.mk parts.1)
    let cleaned := if hasSuffix (String.mk parts.1) "/" && !hasSuffix cleaned "/" then cleaned ++ "/"
      else cleaned
    cleaned ++ String.mk parts.2
  else url

/-- `http`'s `hexEscapeNonASCII`: each byte of a rune outside ASCII written as `%` and its hex
digits. -/
def hexEscapeNonASCII (s : String) : String :=
  String.join (s.toList.map fun c =>
    if c.toNat < 0x80 then c.toString
    else String.join ((String.utf8EncodeChar c).map fun b => "%" ++ String.mk (Nat.toDigits 16 b.toNat)))

/-- `http`'s `htmlEscape`: `&`, `<`, `>` and both quotes as character references. -/
def htmlEscape (s : String) : String :=
  String.join (s.toList.map fun c =>
    if c = '&' then "&amp;" else if c = '<' then "&lt;" else if c = '>' then "&gt;"
    else if c.toNat = 34 then "&#34;" else if c.toNat = 39 then "&#39;" else c.toString)

/-- The short HTML note `http.Redirect` writes for a GET, with `fmt.Fprintln`'s newline. -/
def redirectNote (D : Deps) (url : String) (code : Nat) : String :=
  "<a href=\"" ++ htmlEscape url ++ "\">" ++ D.statusText code ++ "</a>.\n\n"

/-- What the client receives: the status once written, the headers as they stood then, and
the bytes written. -/
structure Response (D : Deps) where
  status : Option Nat
  headers : List (String × String)
  body : List D.Body

namespace Response

/-- `Header().Set(key, value)`: the value replaces the one held, or comes last. -/
def setHeader (hs : List (String × String)) (key value : String) : List (String × String) :=
  if hs.any (·.1 == key) then hs.map fun kv => if kv.1 = key then (key, value) else kv
  else hs ++ [(key, value)]

/-- One call on the response writer.  Headers set after the status are not sent; a `Write`
before `WriteHeader` sends status 200.  `http.Redirect` sets `Location` and, when no
`Content-Type` is set, for GET and HEAD a `text/html` one, sends its code, and for a GET with
no `Content-Type` writes its HTML note. -/
def apply (r : Response D) : Ev D → Response D
  | ⟨.setHeader key value, _⟩ =>
    if r.status.isNone then { r with headers := setHeader r.headers key value } else r
  | ⟨.writeHeader code, _⟩ => if r.status.isNone then { r with status := some code } else r
  | ⟨.write b, _⟩ => { r with status := some (r.status.getD 200), body := r.body ++ [b] }
  | ⟨.redirect method path url code, _⟩ =>
    let url := redirectUrl D path url
    let hadCT := r.headers.any (·.1 == "Content-Type")
    let sent := if r.status.isNone then
        { r with status := some code, headers :=
          let hs := setHeader r.headers "Location" (hexEscapeNonASCII url)
          if !hadCT && (method == "GET" || method == "HEAD") then
            setHeader hs "Content-Type" "text/html; charset=utf-8"
          else hs }
      else r
    if !hadCT && method == "GET" then
      { sent with body := sent.body ++ [D.bytesOf (redirectNote D url code)] }
    else sent
  | _ => r

/-- `http.Redirect` sends its code unless a status was sent before. -/
theorem status_redirect (r : Response D) (method path url : String) (code : Nat) (u : Unit) :
    (r.apply ⟨.redirect method path url code, u⟩).status =
      if r.status.isNone then some code else r.status := by
  simp only [apply]
  split_ifs <;> rfl

/-- The response the calls `es` send. -/
def of (es : List (Ev D)) : Response D := es.foldl apply ⟨none, [], []⟩

/-- The value sent for `key`. -/
def header (r : Response D) (key : String) : Option String :=
  (r.headers.find? (·.1 == key)).map (·.2)

end Response

end DistrRegistry
