/-
Handlers as programs over their collaborators.  A `Prog` is a finite tree: `pure a` returns
`a`; `call c k` makes the call `c` and goes on with `k r` on its answer `r`.  A run is a path
through the tree, recorded as the calls made together with their answers.

Three views of the runs are defined by recursion on the tree, each with one soundness lemma
against `Steps`: `Wp` (every complete run), `Safe` (every call of every run, with the calls
before it) and `Ignores` (answers a program never looks at).  A property of a handler is then
proved by pushing these views through `bind`.
-/
import Mathlib.Data.List.Basic

namespace DistrRegistry

/-- A program over the calls `C`; a call `c` is answered by a value of `Ret c`. -/
inductive Prog {C : Type} (Ret : C → Type) (α : Type) : Type
  | pure (a : α)
  | call (c : C) (k : Ret c → Prog Ret α)

namespace Prog

variable {C : Type} {Ret : C → Type} {α β : Type}

/-- Sequencing: run `p`, then `f` on its result. -/
def bind : Prog Ret α → (α → Prog Ret β) → Prog Ret β
  | pure a, f => f a
  | call c k, f => call c fun r => (k r).bind f

instance : Monad (Prog Ret) where
  pure := pure
  bind := bind

@[simp] theorem pure_eq (a : α) : (Pure.pure a : Prog Ret α) = pure a := rfl

@[simp] theorem pure_bind (a : α) (f : α → Prog Ret β) : (pure a >>= f) = f a := rfl

@[simp] theorem call_bind (c : C) (k : Ret c → Prog Ret α) (f : α → Prog Ret β) :
    (call c k >>= f) = call c fun r => k r >>= f := rfl

/-- A call that was made, with the answer it got. -/
abbrev Event (Ret : C → Type) := (c : C) × Ret c

/-- `p.Steps es q`: running `p`, the calls of `es` are made and answered as recorded, and `q`
is what is left to run. -/
inductive Steps : Prog Ret α → List (Event Ret) → Prog Ret α → Prop
  | refl (p : Prog Ret α) : Steps p [] p
  | step {c : C} {k : Ret c → Prog Ret α} (r : Ret c) {es : List (Event Ret)}
      {q : Prog Ret α} : Steps (k r) es q → Steps (call c k) (⟨c, r⟩ :: es) q

theorem Steps.trans {p q s : Prog Ret α} {es es' : List (Event Ret)} (h : p.Steps es q)
    (h' : q.Steps es' s) : p.Steps (es ++ es') s := by
  induction h with
  | refl => exact h'
  | step r _ ih => exact .step r (ih h')

/-- One more call answered. -/
theorem Steps.snoc {p : Prog Ret α} {es : List (Event Ret)} {c : C}
    {k : Ret c → Prog Ret α} (h : p.Steps es (call c k)) (r : Ret c) :
    p.Steps (es ++ [⟨c, r⟩]) (k r) :=
  h.trans (.step r (.refl _))

/-- Case analysis on a result, for `simp` to split over a call's answer. -/
theorem except_forall {ε γ : Type} {P : Except ε γ → Prop} :
    (∀ x, P x) ↔ (∀ e, P (.error e)) ∧ ∀ a, P (.ok a) :=
  ⟨fun h => ⟨fun _ => h _, fun _ => h _⟩, fun h x => by cases x; exacts [h.1 _, h.2 _]⟩

/-- Every complete run ends with calls and a result satisfying `post`. -/
def Wp : Prog Ret α → (List (Event Ret) → α → Prop) → Prop
  | pure a, post => post [] a
  | call c k, post => ∀ r, (k r).Wp fun es a => post (⟨c, r⟩ :: es) a

/-- Every call of every run satisfies `inv`, given the calls made before it. -/
def Safe : Prog Ret α → (List (Event Ret) → Event Ret → Prop) → Prop
  | pure _, _ => True
  | call c k, inv => ∀ r, inv [] ⟨c, r⟩ ∧ (k r).Safe fun h e => inv (⟨c, r⟩ :: h) e

/-- The program never looks at the answer to a call satisfying `q`. -/
def Ignores (q : C → Prop) : Prog Ret α → Prop
  | pure _ => True
  | call c k => (q c → ∀ r r', k r = k r') ∧ ∀ r, (k r).Ignores q

@[simp] theorem wp_pure {a : α} {post : List (Event Ret) → α → Prop} :
    (pure a : Prog Ret α).Wp post ↔ post [] a := Iff.rfl

@[simp] theorem wp_call {c : C} {k : Ret c → Prog Ret α} {post : List (Event Ret) → α → Prop} :
    (call c k).Wp post ↔ ∀ r, (k r).Wp fun es a => post (⟨c, r⟩ :: es) a := Iff.rfl

@[simp] theorem safe_pure {a : α} {inv : List (Event Ret) → Event Ret → Prop} :
    (pure a : Prog Ret α).Safe inv := trivial

@[simp] theorem safe_call {c : C} {k : Ret c → Prog Ret α}
    {inv : List (Event Ret) → Event Ret → Prop} :
    (call c k).Safe inv ↔ ∀ r, inv [] ⟨c, r⟩ ∧ (k r).Safe fun h e => inv (⟨c, r⟩ :: h) e :=
  Iff.rfl

@[simp] theorem ignores_pure {q : C → Prop} {a : α} : (pure a : Prog Ret α).Ignores q := trivial

@[simp] theorem ignores_call {q : C → Prop} {c : C} {k : Ret c → Prog Ret α} :
    (call c k).Ignores q ↔ (q c → ∀ r r', k r = k r') ∧ ∀ r, (k r).Ignores q := Iff.rfl

theorem Wp.mono {p : Prog Ret α} {post post' : List (Event Ret) → α → Prop}
    (h : p.Wp post) (hpost : ∀ es a, post es a → post' es a) : p.Wp post' := by
  induction p generalizing post post' with
  | pure a => exact hpost _ _ h
  | call c k ih => exact fun r => ih r (h r) fun es a => hpost _ _

theorem Safe.mono {p : Prog Ret α} {inv inv' : List (Event Ret) → Event Ret → Prop}
    (h : p.Safe inv) (hinv : ∀ pre e, inv pre e → inv' pre e) : p.Safe inv' := by
  induction p generalizing inv inv' with
  | pure a => trivial
  | call c k ih => exact fun r => ⟨hinv _ _ (h r).1, ih r (h r).2 fun pre e => hinv _ _⟩

theorem wp_bind {p : Prog Ret α} {f : α → Prog Ret β} {post : List (Event Ret) → β → Prop} :
    (p >>= f).Wp post ↔ p.Wp fun es a => (f a).Wp fun es' b => post (es ++ es') b := by
  induction p generalizing post with
  | pure a => rfl
  | call c k ih => exact forall_congr' fun r => ih r

theorem safe_bind {p : Prog Ret α} {f : α → Prog Ret β}
    {inv : List (Event Ret) → Event Ret → Prop} :
    (p >>= f).Safe inv ↔
      p.Safe inv ∧ p.Wp fun es a => (f a).Safe fun h e => inv (es ++ h) e := by
  induction p generalizing inv with
  | pure a => simp
  | call c k ih =>
    simp only [call_bind, safe_call, wp_call, ih]
    exact ⟨fun h => ⟨fun r => ⟨(h r).1, (h r).2.1⟩, fun r => (h r).2.2⟩,
      fun h r => ⟨(h.1 r).1, (h.1 r).2, h.2 r⟩⟩

theorem ignores_bind {q : C → Prop} {p : Prog Ret α} {f : α → Prog Ret β}
    (hp : p.Ignores q) (hf : ∀ a, (f a).Ignores q) : (p >>= f).Ignores q := by
  induction p with
  | pure a => exact hf a
  | call c k ih =>
    exact ⟨fun hc r r' => by simp only [hp.1 hc r r'], fun r => ih r (hp.2 r)⟩

theorem wp_of_forall {p : Prog Ret α} {post : List (Event Ret) → α → Prop}
    (h : ∀ es a, post es a) : p.Wp post := by
  induction p generalizing post with
  | pure a => exact h _ _
  | call c k ih => exact fun r => ih r fun es a => h _ _

/-- `Wp` is exact: it holds when every complete run satisfies `post`, and only then. -/
theorem wp_iff {p : Prog Ret α} {post : List (Event Ret) → α → Prop} :
    p.Wp post ↔ ∀ es a, p.Steps es (pure a) → post es a := by
  induction p generalizing post with
  | pure a =>
    refine ⟨fun h es b hs => ?_, fun h => h [] a (.refl _)⟩
    cases hs
    exact h
  | call c k ih =>
    refine ⟨fun h es b hs => ?_, fun h r => (ih r).mpr fun es b hs => h _ b (.step r hs)⟩
    cases hs with
    | step r hs => exact (ih r).mp (h r) _ b hs

/-- Every call of a run satisfies a `Safe` invariant, given the calls before it. -/
theorem Safe.of_steps {p q : Prog Ret α} {inv : List (Event Ret) → Event Ret → Prop}
    (hp : p.Safe inv) {es : List (Event Ret)} (h : p.Steps es q) :
    ∀ pre e post, es = pre ++ e :: post → inv pre e := by
  induction h generalizing inv with
  | refl => intro pre e post heq; simp at heq
  | @step c k r es q _ ih =>
    intro pre e post heq
    cases pre with
    | nil =>
      cases heq
      exact (hp r).1
    | cons e' pre =>
      cases heq
      exact ih (hp r).2 pre e post rfl

/-- The next call of a run satisfies a `Safe` invariant, whatever its answer. -/
theorem Safe.next {p : Prog Ret α} {inv : List (Event Ret) → Event Ret → Prop}
    (hp : p.Safe inv) {es : List (Event Ret)} {c : C} {k : Ret c → Prog Ret α}
    (h : p.Steps es (call c k)) (r : Ret c) : inv es ⟨c, r⟩ :=
  hp.of_steps (h.snoc r) es _ [] rfl

/-- Every call of every run satisfies `P`, whatever came before it. -/
def Always (P : Event Ret → Prop) (p : Prog Ret α) : Prop := p.Safe fun _ e => P e

@[simp] theorem always_pure {P : Event Ret → Prop} {a : α} : (pure a : Prog Ret α).Always P :=
  trivial

@[simp] theorem always_call {P : Event Ret → Prop} {c : C} {k : Ret c → Prog Ret α} :
    (call c k).Always P ↔ ∀ r, P ⟨c, r⟩ ∧ (k r).Always P := Iff.rfl

theorem always_bind {P : Event Ret → Prop} {p : Prog Ret α} {f : α → Prog Ret β}
    (hp : p.Always P) (hf : ∀ a, (f a).Always P) : (p >>= f).Always P :=
  safe_bind.mpr ⟨hp, wp_of_forall fun _ a => hf a⟩

theorem Always.of_steps {P : Event Ret → Prop} {p q : Prog Ret α} (hp : p.Always P)
    {es : List (Event Ret)} (h : p.Steps es q) : ∀ e ∈ es, P e := by
  intro e he
  obtain ⟨pre, post, rfl⟩ := List.append_of_mem he
  exact Safe.of_steps hp h pre e post rfl

theorem Always.wp {P : Event Ret → Prop} {p : Prog Ret α} (hp : p.Always P) :
    p.Wp fun es _ => ∀ e ∈ es, P e :=
  wp_iff.mpr fun _ _ hs => hp.of_steps hs

theorem Wp.and {p : Prog Ret α} {post post' : List (Event Ret) → α → Prop} (h : p.Wp post)
    (h' : p.Wp post') : p.Wp fun es a => post es a ∧ post' es a :=
  wp_iff.mpr fun es a hs => ⟨wp_iff.mp h es a hs, wp_iff.mp h' es a hs⟩

/-- Two runs agree but for the answers to calls satisfying `q`. -/
def AgreeExcept (q : C → Prop) (e e' : Event Ret) : Prop := e = e' ∨ (e.1 = e'.1 ∧ q e.1)

/-- A program that ignores the answers to `q` runs the same way whatever they are. -/
theorem Ignores.steps {q : C → Prop} {p s : Prog Ret α} (hp : p.Ignores q)
    {es : List (Event Ret)} (h : p.Steps es s) {es' : List (Event Ret)}
    (hes : List.Forall₂ (AgreeExcept q) es es') : p.Steps es' s := by
  induction h generalizing es' with
  | refl => cases hes; exact .refl _
  | @step c k r es s _ ih =>
    cases hes with
    | cons he hes =>
      rename_i e' es'
      obtain ⟨c', r'⟩ := e'
      rcases he with he | ⟨hc, hq⟩
      · cases he
        exact .step r (ih (hp.2 r) hes)
      · cases hc
        have hk := hp.1 hq r r'
        exact .step r' (hk ▸ ih (hp.2 r) hes)

section Env

/-! Runs against an environment: a state `s`, the answers `ans s` allows to a call in it, and
the state `upd s e` an answered call leaves. -/

variable {S : Type} (ans : S → Event Ret → Prop) (upd : S → Event Ret → S)

/-- The state after the calls `es`. -/
def after (s : S) (es : List (Event Ret)) : S := es.foldl upd s

/-- Every call of `es` got an answer the environment allows in the state it was made in. -/
def Allowed : S → List (Event Ret) → Prop
  | _, [] => True
  | s, e :: es => ans s e ∧ Allowed (upd s e) es

/-- `Wp` over the runs the environment allows from `s`. -/
def WpIn : Prog Ret α → S → (List (Event Ret) → α → Prop) → Prop
  | pure a, _, post => post [] a
  | call c k, s, post => ∀ r, ans s ⟨c, r⟩ →
      (k r).WpIn (upd s ⟨c, r⟩) fun es a => post (⟨c, r⟩ :: es) a

/-- Runs `p` from `s`, `answer` choosing each call's answer from the state: the calls made
and the result, or `none` where a call gets no answer. -/
def run (answer : S → (c : C) → Option (Ret c)) : Prog Ret α → S → Option (List (Event Ret) × α)
  | pure a, _ => some ([], a)
  | call c k, s =>
    match answer s c with
    | none => none
    | some r => ((k r).run answer (upd s ⟨c, r⟩)).map fun (es, a) => (⟨c, r⟩ :: es, a)

variable {ans upd}

@[simp] theorem after_nil {s : S} : after upd s [] = s := rfl

@[simp] theorem after_cons {s : S} {e : Event Ret} {es : List (Event Ret)} :
    after upd s (e :: es) = after upd (upd s e) es := rfl

theorem after_append {s : S} {es es' : List (Event Ret)} :
    after upd s (es ++ es') = after upd (after upd s es) es' := List.foldl_append _ _ _ _

@[simp] theorem allowed_nil {s : S} : Allowed ans upd s [] := trivial

@[simp] theorem allowed_cons {s : S} {e : Event Ret} {es : List (Event Ret)} :
    Allowed ans upd s (e :: es) ↔ ans s e ∧ Allowed ans upd (upd s e) es := Iff.rfl

theorem allowed_append {s : S} {es es' : List (Event Ret)} :
    Allowed ans upd s (es ++ es') ↔
      Allowed ans upd s es ∧ Allowed ans upd (after upd s es) es' := by
  induction es generalizing s with
  | nil => simp
  | cons e es ih => simp [ih, and_assoc]

@[simp] theorem wpIn_pure {a : α} {s : S} {post : List (Event Ret) → α → Prop} :
    (pure a : Prog Ret α).WpIn ans upd s post ↔ post [] a := Iff.rfl

@[simp] theorem wpIn_call {c : C} {k : Ret c → Prog Ret α} {s : S}
    {post : List (Event Ret) → α → Prop} :
    (call c k).WpIn ans upd s post ↔ ∀ r, ans s ⟨c, r⟩ →
      (k r).WpIn ans upd (upd s ⟨c, r⟩) fun es a => post (⟨c, r⟩ :: es) a := Iff.rfl

/-- `WpIn` is exact: it holds when every complete run the environment allows satisfies `post`,
and only then. -/
theorem wpIn_iff {p : Prog Ret α} {s : S} {post : List (Event Ret) → α → Prop} :
    p.WpIn ans upd s post ↔
      ∀ es a, p.Steps es (pure a) → Allowed ans upd s es → post es a := by
  induction p generalizing s post with
  | pure a =>
    refine ⟨fun h es b hs _ => ?_, fun h => h [] a (.refl _) trivial⟩
    cases hs
    exact h
  | call c k ih =>
    refine ⟨fun h es b hs ha => ?_, fun h r hr => (ih r).mpr fun es b hs ha =>
      h _ b (.step r hs) ⟨hr, ha⟩⟩
    cases hs with
    | step r hs => exact (ih r).mp (h r ha.1) _ b hs ha.2

theorem WpIn.mono {p : Prog Ret α} {s : S} {post post' : List (Event Ret) → α → Prop}
    (h : p.WpIn ans upd s post) (hpost : ∀ es a, post es a → post' es a) :
    p.WpIn ans upd s post' :=
  wpIn_iff.mpr fun es a hs ha => hpost _ _ (wpIn_iff.mp h es a hs ha)

variable {answer : S → (c : C) → Option (Ret c)}

theorem run_steps {p : Prog Ret α} {s : S} {es : List (Event Ret)} {a : α}
    (h : run upd answer p s = some (es, a)) : p.Steps es (pure a) := by
  induction p generalizing s es with
  | pure b =>
    cases h
    exact .refl _
  | call c k ih =>
    simp only [run] at h
    split at h
    · cases h
    · obtain ⟨⟨es', b⟩, hrun, heq⟩ := Option.map_eq_some'.mp h
      cases heq
      exact .step _ (ih _ hrun)

/-- A run with answers the environment allows is allowed. -/
theorem run_allowed (hans : ∀ s c r, answer s c = some r → ans s ⟨c, r⟩) {p : Prog Ret α}
    {s : S} {es : List (Event Ret)} {a : α} (h : run upd answer p s = some (es, a)) :
    Allowed ans upd s es := by
  induction p generalizing s es with
  | pure b =>
    cases h
    trivial
  | call c k ih =>
    simp only [run] at h
    split at h
    · cases h
    · rename_i r hr
      obtain ⟨⟨es', b⟩, hrun, heq⟩ := Option.map_eq_some'.mp h
      cases heq
      exact ⟨hans _ _ _ hr, ih _ hrun⟩

end Env

end Prog

end DistrRegistry
