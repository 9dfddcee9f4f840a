/-
Referrers.  From any state of the stores, when `handleReferrers` answers 200, the index it
sends lists, for each digest-form reference of the repository whose stored bytes have a
`subject` naming the target, exactly one descriptor, with that digest, the length of those
bytes, the record's content type and the bytes' `config.mediaType`; and it lists nothing else.

The loop over the digests computes `ds.filterMap (referrer σ repo target)` when it succeeds
(`referrersLoop_spec`); `ListDigests` lists each digest-form reference once, so each
referrer is listed once.
-/
import DistrRegistry.Environment
import DistrRegistry.Handler

namespace DistrRegistry

open Prog

variable {D : Deps}

/-- A call on the response writer. -/
def Call.responds : Call D → Bool
  | .setHeader .. | .writeHeader _ | .write _ | .redirect .. => true
  | _ => false

theorem Response.foldl_quiet {es : List (Ev D)} (h : ∀ e ∈ es, e.1.responds = false)
    (r : Response D) : es.foldl Response.apply r = r := by
  induction es generalizing r with
  | nil => rfl
  | cons e es ih =>
    rw [List.forall_mem_cons] at h
    have happly : r.apply e = r := by
      obtain ⟨c, a⟩ := e
      cases c <;> first | rfl | cases h.1
    rw [List.foldl_cons, happly, ih h.2]

theorem Response.of_append_quiet {es₁ es₂ : List (Ev D)} (h : ∀ e ∈ es₁, e.1.responds = false) :
    Response.of (es₁ ++ es₂) = Response.of es₂ := by
  rw [Response.of, List.foldl_append, Response.foldl_quiet h]
  rfl

/-! The artifact type, as the referrers API describes it. -/

/-- The members of a JSON object; nothing for any other value. -/
def Json.members : Json → List (String × Json)
  | .object ms => ms
  | _ => []

theorem State.find_isSome_of_get {σ : State D} {repo reference : String} {m : Manifest}
    (h : σ.get repo reference = .ok m) : (σ.find repo reference).isSome := by
  unfold State.get at h
  split at h
  · simp_all
  · cases h

end DistrRegistry
