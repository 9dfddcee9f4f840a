/-
The registry as a concurrent system.  Requests arrive at any time and run side by side, each
through the handler the classifier picks, one call at a time: any request in flight may make
its next call, the stores answer it as they may in their current state, and the answered call
changes them.  A request whose handler has returned stays, with nothing left to run.  The
stores start empty, and every body a request carries is drawn from a set `S`.

Beside the stores the world keeps a ghost record: the pushes whose transaction committed,
newest first.

`World.Inv` is what holds in every reachable world: the manifest store is exactly the `Put`s
of the committed pushes, in commit order; the blob store is content-addressed and holds bodies
of `S`; each committed push has its body stored and its sub-manifests recorded; every answer a
request in flight has had still holds.  `Reachable.inv` derives it from one lemma per kind of
step, each resting on the inversion of a writing call (`PushCall`).
-/
import Mathlib.Data.Set.Defs
import DistrRegistry.Commit

namespace DistrRegistry

open Prog

variable {D : Deps} {caps : BlobCaps}

/-- A request in flight: the handler the classifier picked for it, the calls the handler made
with their answers, and what is left to run. -/
structure Thread (D : Deps) (caps : BlobCaps) where
  req : Request D
  handler : Handler D (Option RegError)
  hist : List (Ev D)
  prog : Handler D (Option RegError)
  routed : route caps req = some handler
  steps : handler.Steps hist prog

/-- The thread after its next call `c` got the answer `r`. -/
def Thread.answer (t : Thread D caps) {c : Call D} {k : c.Ret → Handler D (Option RegError)}
    (hprog : t.prog = .call c k) (r : c.Ret) : Thread D caps :=
  { t with hist := t.hist ++ [⟨c, r⟩], prog := k r, steps := (hprog ▸ t.steps).snoc r }

/-- The stores, the requests in flight, and the committed pushes, newest first. -/
structure World (D : Deps) (caps : BlobCaps) where
  store : State D
  threads : List (Thread D caps)
  pushes : List (Push D)

/-- The world before any request. -/
def World.empty : World D caps := ⟨State.empty, [], []⟩

/-- The pushes an answered call of `req` commits: the request's push, when the call is a
transaction that committed. -/
def commits (req : Request D) (e : Ev D) : List (Push D) :=
  if committed e then req.push.toList else []

/-- One step of the system: a request arrives, or a request in flight makes its next call and
gets an answer the stores allow.  Blob reads may redirect where `redirects` allows. -/
inductive Step (S : Set D.Body) (redirects : Bool) : World D caps → World D caps → Prop
  | arrive (w : World D caps) (req : Request D) {p : Handler D (Option RegError)}
      (hroute : route caps req = some p) (hbody : ∀ b, req.body = .ok b → b ∈ S) :
      Step S redirects w { w with threads := ⟨req, p, [], p, hroute, .refl p⟩ :: w.threads }
  | call (w : World D caps) (i : Nat) (hi : i < w.threads.length) {c : Call D}
      {k : c.Ret → Handler D (Option RegError)} (hprog : w.threads[i].prog = .call c k)
      (r : c.Ret) (hans : Answers redirects w.threads[i].req.body w.store ⟨c, r⟩) :
      Step S redirects w ⟨w.store.apply ⟨c, r⟩, w.threads.set i (w.threads[i].answer hprog r),
        commits w.threads[i].req ⟨c, r⟩ ++ w.pushes⟩

/-- The worlds some interleaving of requests reaches from the empty one. -/
inductive Reachable (S : Set D.Body) (redirects : Bool) : World D caps → Prop
  | init : Reachable S redirects World.empty
  | step {w w' : World D caps} : Reachable S redirects w → Step S redirects w w' →
      Reachable S redirects w'

/-! The invariant. -/

/-- Every body the request read is its own. -/
def ReadsBody (req : Request D) (pre : List (Ev D)) : Prop :=
  ∀ r, (⟨.readBody, r⟩ : Ev D) ∈ pre → r = req.body

/-- A committed push in the stores `σ`: its body is stored under its digest, and each
sub-manifest it requires is recorded, in its repository. -/
def Push.Stored (σ : State D) (p : Push D) : Prop :=
  (σ.blob p.repo (D.sha256 p.body)).isSome ∧
    ∀ reference, Requires p.contentType p.body reference → (σ.find p.repo reference).isSome

/-- A request in flight in the stores `σ`: its body is drawn from `S`, it read no other, and
every answer it had still holds. -/
def Thread.Inv (S : Set D.Body) (σ : State D) (t : Thread D caps) : Prop :=
  (∀ b, t.req.body = .ok b → b ∈ S) ∧ ReadsBody t.req t.hist ∧ ∀ e ∈ t.hist, Holds σ e

/-- What holds in every reachable world. -/
structure World.Inv (S : Set D.Body) (w : World D caps) : Prop where
  manifests : w.store.manifests = w.pushes.flatMap fun p => p.puts.reverse
  blobs : ∀ x ∈ w.store.blobs, x.2.1 = D.sha256 x.2.2 ∧ x.2.2 ∈ S
  pushes : ∀ p ∈ w.pushes, p.body ∈ S ∧ p.Stored w.store
  threads : ∀ t ∈ w.threads, t.Inv S w.store

theorem Push.Stored.mono {σ σ' : State D} (h : σ.Extends σ') {p : Push D} (hp : p.Stored σ) :
    p.Stored σ' :=
  ⟨h.blob_isSome hp.1, fun reference hr => h.find_isSome (hp.2 reference hr)⟩

theorem Request.push_eq {req : Request D} {p : Push D}
    (hpath : repoTarget req.path = some (p.repo, p.target)) (htype : p.contentType = req.contentType)
    (hbody : req.body = .ok p.body) : req.push = some p := by
  simp only [Request.push, hpath, hbody, ← htype]

/-- A call of a request that commits is the transaction of the request's push, made after the
blob `Put` of its body and after its sub-manifests were found. -/
theorem commits_of_pushCall {req : Request D} {pre : List (Ev D)} {e : Ev D}
    (hcall : PushCall req pre e) (hreads : ReadsBody req pre) :
    (committed e = false ∧ commits req e = []) ∨
    ∃ p : Push D, commits req e = [p] ∧ e = ⟨.runTx p.puts, none⟩ ∧ req.body = .ok p.body ∧
      (⟨.blobPut p.repo (D.sha256 p.body) p.contentType p.body, none⟩ : Ev D) ∈ pre ∧
      ∀ reference, Requires p.contentType p.body reference →
        ∃ m, (⟨.manifestGet p.repo reference, .ok m⟩ : Ev D) ∈ pre := by
  obtain ⟨c, r⟩ := e
  cases c
  case runTx puts =>
    rcases r with _ | err
    · obtain ⟨p, hpath, htype, hbody, rfl, hput, hreq⟩ := hcall
      have hbody' := (hreads _ hbody).symm
      refine .inr ⟨p, ?_, rfl, hbody', hput, hreq⟩
      simp [commits, committed, Request.push_eq hpath htype hbody']
    · exact .inl ⟨rfl, rfl⟩
  all_goals exact .inl ⟨rfl, rfl⟩

/-- A blob `Put` of a request stores a body the request carries, under its digest. -/
theorem blobs_apply_of_pushCall {req : Request D} {pre : List (Ev D)} {e : Ev D}
    (hcall : PushCall req pre e) (hreads : ReadsBody req pre) (σ : State D) :
    (σ.apply e).blobs = σ.blobs ∨
      ∃ repo b, (σ.apply e).blobs = (repo, D.sha256 b, b) :: σ.blobs ∧ req.body = .ok b := by
  obtain ⟨c, r⟩ := e
  cases c
  case blobPut repo digest contentType b =>
    rcases r with _ | err
    · obtain ⟨rfl, hbody⟩ := hcall
      exact .inr ⟨repo, b, rfl, (hreads _ hbody).symm⟩
    · exact .inl rfl
  case runTx => exact .inl (by cases r <;> rfl)
  all_goals exact .inl rfl

section Steps

variable {S : Set D.Body}

theorem World.Inv.empty : (World.empty : World D caps).Inv S :=
  ⟨rfl, nofun, nofun, nofun⟩

/-- An arrival keeps the invariant: the new request has read nothing yet. -/
theorem World.Inv.arrive {w : World D caps} (hw : w.Inv S) {req : Request D}
    {p : Handler D (Option RegError)} (hroute : route caps req = some p)
    (hbody : ∀ b, req.body = .ok b → b ∈ S) :
    World.Inv S { w with threads := ⟨req, p, [], p, hroute, .refl p⟩ :: w.threads } := by
  refine ⟨hw.manifests, hw.blobs, hw.pushes, ?_⟩
  rintro t (_ | ⟨_, ht⟩)
  · exact ⟨hbody, nofun, nofun⟩
  · exact hw.threads t ht

/-- A call keeps the invariant.  A commit adds the `Put`s of the caller's push, whose body is
stored and whose sub-manifests were found earlier in the same run; a blob `Put` stores a body
of the caller under its digest; the caller's new answer holds in the stores it leaves, and
every older answer of every request still holds in them, since they only grew. -/
theorem World.Inv.call {redirects : Bool} {w : World D caps} (hw : w.Inv S) (i : Nat)
    (hi : i < w.threads.length) {c : Call D} {k : c.Ret → Handler D (Option RegError)}
    (hprog : w.threads[i].prog = .call c k) (r : c.Ret)
    (hans : Answers redirects w.threads[i].req.body w.store ⟨c, r⟩) :
    World.Inv S ⟨w.store.apply ⟨c, r⟩, w.threads.set i (w.threads[i].answer hprog r),
      commits w.threads[i].req ⟨c, r⟩ ++ w.pushes⟩ := by
  obtain ⟨hbodyS, hreads, hholds⟩ := hw.threads _ (List.getElem_mem hi)
  have hcall : PushCall w.threads[i].req w.threads[i].hist ⟨c, r⟩ :=
    (route_pushCall w.threads[i].routed).next (hprog ▸ w.threads[i].steps) r
  have hext : w.store.Extends (w.store.apply ⟨c, r⟩) := State.extends_apply _ _
  refine ⟨?manifests, ?blobs, ?pushes, ?threads⟩
  case manifests =>
    rcases commits_of_pushCall hcall hreads with ⟨hc, hnil⟩ | ⟨p, hp, he, -⟩
    · rw [State.manifests_apply_of_committed_false hc, hnil, List.nil_append]
      exact hw.manifests
    · rw [hp, he]
      simp [State.apply, hw.manifests]
  case blobs =>
    rcases blobs_apply_of_pushCall hcall hreads w.store with h | ⟨repo, b, h, hb⟩
    · rw [h]
      exact hw.blobs
    · rw [h]
      rintro x (_ | ⟨_, hx⟩)
      · exact ⟨rfl, hbodyS b hb⟩
      · exact hw.blobs x hx
  case pushes =>
    intro p hp
    rcases List.mem_append.mp hp with hp | hp
    · rcases commits_of_pushCall hcall hreads with ⟨-, hnil⟩ | ⟨p', hp', -, hb, hput, hreq⟩
      · rw [hnil] at hp
        cases hp
      · rw [hp', List.mem_singleton] at hp
        subst hp
        refine ⟨hbodyS _ hb, Push.Stored.mono hext ⟨hholds _ hput, fun reference hr => ?_⟩⟩
        obtain ⟨m, hm⟩ := hreq reference hr
        exact hholds _ hm
    · exact ⟨(hw.pushes p hp).1, (hw.pushes p hp).2.mono hext⟩
  case threads =>
    intro t ht
    rcases List.mem_or_eq_of_mem_set ht with ht | rfl
    · obtain ⟨h1, h2, h3⟩ := hw.threads t ht
      exact ⟨h1, h2, fun e he => (h3 e he).mono hext⟩
    · refine ⟨hbodyS, fun r' hr' => ?_, fun e he => ?_⟩
      · rcases List.mem_append.mp hr' with hr' | hr'
        · exact hreads r' hr'
        · cases List.mem_singleton.mp hr'
          exact hans
      · rcases List.mem_append.mp he with he | he
        · exact (hholds e he).mono hext
        · rw [List.mem_singleton.mp he]
          exact holds_apply hans

/-- The invariant holds in every reachable world. -/
theorem Reachable.inv {redirects : Bool} {w : World D caps} (h : Reachable S redirects w) :
    w.Inv S := by
  induction h with
  | init => exact World.Inv.empty
  | step _ hstep ih =>
    cases hstep with
    | arrive req hroute hbody => exact ih.arrive hroute hbody
    | call i hi hprog r hans => exact ih.call i hi hprog r hans

/-- A request in flight that runs to the end on its own, each call answered as the stores
allow, reaches a world with the stores its calls leave, with the pushes it committed, and with
the same requests in flight, one step per call. -/
theorem Reachable.run_thread {redirects : Bool} {w : World D caps}
    (hw : Reachable S redirects w) (i : Nat) (hi : i < w.threads.length)
    {q : Handler D (Option RegError)} (hq : w.threads[i].prog = q) {es : List (Ev D)}
    {a : Option RegError} (hrun : q.Steps es (.pure a))
    (hall : Allowed (Answers redirects w.threads[i].req.body) State.apply w.store es) :
    ∃ w' : World D caps, Reachable S redirects w' ∧ w'.store = after State.apply w.store es ∧
      w'.pushes = es.reverse.flatMap (commits w.threads[i].req) ++ w.pushes ∧
      w'.threads.map Thread.req = w.threads.map Thread.req ∧
      Relation.ReflTransGen (Step S redirects) w w' := by
  induction es generalizing w q with
  | nil => exact ⟨w, hw, rfl, rfl, rfl, .refl⟩
  | cons e es ih =>
    cases hrun with
    | step r hrest =>
      have hstep := Step.call (S := S) w i hi hq r hall.1
      obtain ⟨w', hw', hstore, hpushes, hreqs, hrun'⟩ := ih (hw.step hstep)
        (by simpa using hi) (by simp [Thread.answer]) hrest (by simpa [Thread.answer] using hall.2)
      refine ⟨w', hw', hstore, by simp [hpushes, Thread.answer], ?_, .head hstep hrun'⟩
      refine hreqs.trans (List.ext_getElem (by simp) fun j _ _ => ?_)
      by_cases hij : i = j
      · subst hij
        simp [Thread.answer]
      · simp [List.getElem_set_ne hij]

/-- A request that arrives and runs to the end before any other call is made. -/
theorem Reachable.arrive_run {redirects : Bool} {w : World D caps}
    (hw : Reachable S redirects w) (req : Request D) {p : Handler D (Option RegError)}
    (hroute : route caps req = some p) (hbody : ∀ b, req.body = .ok b → b ∈ S)
    {es : List (Ev D)} {a : Option RegError} (hexec : Exec redirects req.body p w.store es a) :
    ∃ w' : World D caps, Reachable S redirects w' ∧ w'.store = after State.apply w.store es ∧
      w'.pushes = es.reverse.flatMap (commits req) ++ w.pushes ∧
      w'.threads.map Thread.req = req :: w.threads.map Thread.req ∧
      Relation.ReflTransGen (Step S redirects) w w' :=
  have harrive : Step S redirects w _ := .arrive w req hroute hbody
  let ⟨w', hw', hstore, hpushes, hreqs, hrun⟩ := (hw.step harrive).run_thread 0
    (List.length_pos.mpr (List.cons_ne_nil _ _)) rfl hexec.1 hexec.2
  ⟨w', hw', hstore, hpushes, hreqs, .head harrive hrun⟩

end Steps

end DistrRegistry
