/-
The page size of the listings.  `handleTags` and `handleCatalog` both read the query's `n`
with `strconv.Atoi`, defaulting to 10000; `handleTags` rejects a malformed `n` with
`BAD_REQUEST`, `handleCatalog` drops the error and lists with what `Atoi` returned.

`atoi_toString` is the round trip of the model of `strconv.Atoi` against Lean's `toString` on
`Int` (the decimal `strconv.Itoa` writes), through the digits `Nat.toDigits` emits, on both of
`Atoi`'s paths.  From it: a well-formed `n` reaches both listings unchanged
(`page_size_round_trip`), and a malformed one sends the two handlers different ways
(`malformed_page_size`): `ParseUint` meets the bad byte before any overflow when the text is
short enough.
-/
import Mathlib.Data.Nat.Digits
import DistrRegistry.Environment
import DistrRegistry.Handler

namespace DistrRegistry

/-! The numerals `toString` writes. -/

/-- The digits `Nat.toDigits` writes in base 10 are decimal digits of their value. -/
theorem digitChar_digit : ∀ d < 10,
    (Nat.digitChar d).isDigit = true ∧ (Nat.digitChar d).toNat - '0'.toNat = d := by
  decide

/-- `toDigitsCore` with enough fuel puts in front of `ds` a numeral whose value is `n`. -/
theorem toDigitsCore_numeral (fuel n : Nat) (ds : List Char) (h : n < fuel) :
    ∃ l, Nat.toDigitsCore 10 fuel n ds = l ++ ds ∧ l ≠ [] ∧ l.all Char.isDigit ∧
      decimalValue l = n := by
  induction fuel generalizing n ds with
  | zero => omega
  | succ fuel ih =>
    obtain ⟨hdigit, hvalue⟩ := digitChar_digit (n % 10) (Nat.mod_lt _ (by omega))
    simp only [Nat.toDigitsCore]
    split
    · refine ⟨[Nat.digitChar (n % 10)], rfl, List.cons_ne_nil _ _, by simp [hdigit], ?_⟩
      simp only [decimalValue, List.foldl_cons, List.foldl_nil, hvalue]
      omega
    · obtain ⟨l, hl, hne, hall, hval⟩ := ih (n / 10) (Nat.digitChar (n % 10) :: ds) (by omega)
      refine ⟨l ++ [Nat.digitChar (n % 10)], by simp [hl], by simp, by simp [hall, hdigit], ?_⟩
      simp only [decimalValue, List.foldl_append, List.foldl_cons, List.foldl_nil, hvalue] at hval ⊢
      omega

/-- `toString` of a natural number is a numeral of its value. -/
theorem toDigits_numeral (n : Nat) :
    Nat.toDigits 10 n ≠ [] ∧ (Nat.toDigits 10 n).all Char.isDigit ∧
      decimalValue (Nat.toDigits 10 n) = n := by
  obtain ⟨l, hl, hne, hall, hval⟩ := toDigitsCore_numeral (n + 1) n [] (Nat.lt_succ_self n)
  rw [List.append_nil] at hl
  rw [Nat.toDigits, hl]
  exact ⟨hne, hall, hval⟩

theorem toString_ne_empty (v : Int) : toString v ≠ "" := by
  cases v with
  | ofNat m => exact fun h => (toDigits_numeral m).1 (congrArg String.data h)
  | negSucc m => exact fun h => nomatch congrArg String.data h

/-! `strconv.Atoi` on numerals and on malformed text. -/

/-- A numeral with no sign goes to `strconv.Atoi`'s digits whole. -/
theorem splitSign_of_digit {c : Char} (hc : c.isDigit = true) (cs : List Char) :
    splitSign (c :: cs) = (false, c :: cs) := by
  unfold splitSign
  split
  · rename_i h; cases h; exact absurd hc (by decide)
  · rename_i h; cases h; exact absurd hc (by decide)
  · rfl

/-- The value of the digits `ds` read after a value `n`. -/
def decimalFrom (n : Nat) (ds : List Char) : Nat :=
  ds.foldl (fun n c => 10 * n + (c.toNat - '0'.toNat)) n

@[simp] theorem decimalFrom_cons (n : Nat) (c : Char) (cs : List Char) :
    decimalFrom n (c :: cs) = decimalFrom (10 * n + (c.toNat - '0'.toNat)) cs := rfl

theorem le_decimalFrom (n : Nat) (ds : List Char) : n ≤ decimalFrom n ds := by
  induction ds generalizing n with
  | nil => exact le_refl n
  | cons c cs ih => exact (Nat.le_add_right_of_le (Nat.le_mul_of_pos_left n (by decide))).trans (ih _)

/-- `ParseUint`'s loop reads digits whose value stays within 64 bits. -/
theorem parseUint_ok {n : Nat} {ds : List Char} (hall : ds.all Char.isDigit)
    (hv : decimalFrom n ds ≤ 18446744073709551615) : parseUint n ds = .ok (decimalFrom n ds) := by
  induction ds generalizing n with
  | nil => rfl
  | cons c cs ih =>
    simp only [List.all_cons, Bool.and_eq_true] at hall
    have hle := le_decimalFrom (10 * n + (c.toNat - '0'.toNat)) cs
    rw [decimalFrom_cons] at hv ⊢
    simp only [parseUint, hall.1, Bool.not_true, Bool.false_eq_true, if_false]
    rw [if_neg (by omega), if_neg (by omega)]
    exact ih hall.2 hv

/-- `strconv.Atoi` on a numeral with no sign, on either path. -/
theorem atoi_digits (D : Deps) {ds : List Char} (hne : ds ≠ []) (hall : ds.all Char.isDigit)
    (hv : decimalValue ds < 9223372036854775808) :
    atoi D ⟨ds⟩ = ((decimalValue ds : Int), none) := by
  obtain ⟨c, cs, rfl⟩ := List.exists_cons_of_ne_nil hne
  have hc : c.isDigit = true := by simp_all
  change decimalFrom 0 _ < _ at hv
  have hparse := parseUint_ok (n := 0) hall (by omega)
  unfold atoi
  dsimp only [String.toList]
  simp only [splitSign_of_digit hc, List.isEmpty_cons, hall, Bool.not_true, Bool.or_false,
    Bool.false_eq_true, if_false]
  split_ifs
  · rfl
  · rw [hparse]
    simp only [Bool.not_false, true_and, false_and, if_false]
    rw [if_neg (by omega)]
    rfl

/-- `strconv.Atoi` on a numeral with a minus sign, on either path. -/
theorem atoi_minus_digits (D : Deps) {ds : List Char} (hne : ds ≠ []) (hall : ds.all Char.isDigit)
    (hv : decimalValue ds ≤ 9223372036854775808) :
    atoi D ⟨'-' :: ds⟩ = (-(decimalValue ds : Int), none) := by
  obtain ⟨c, cs, rfl⟩ := List.exists_cons_of_ne_nil hne
  change decimalFrom 0 _ ≤ _ at hv
  have hparse := parseUint_ok (n := 0) hall (by omega)
  unfold atoi
  dsimp only [String.toList]
  simp only [splitSign, List.isEmpty_cons, hall, Bool.not_true, Bool.or_false,
    Bool.false_eq_true, if_false, if_true]
  split_ifs
  · rfl
  · rw [hparse]
    simp only [Bool.not_true, false_and, true_and, if_false]
    rw [if_neg (by omega)]
    rfl

/-- `strconv.Atoi` reads back every `int` that `strconv.Itoa` (Lean's `toString`) writes. -/
theorem atoi_toString (D : Deps) (v : Int)
    (hv : -9223372036854775808 ≤ v ∧ v < 9223372036854775808) :
    atoi D (toString v) = (v, none) := by
  cases v with
  | ofNat m =>
    obtain ⟨hne, hall, hval⟩ := toDigits_numeral m
    rw [Int.ofNat_eq_coe] at hv ⊢
    show atoi D ⟨Nat.toDigits 10 m⟩ = _
    rw [atoi_digits D hne hall (by omega), hval]
  | negSucc m =>
    obtain ⟨hne, hall, hval⟩ := toDigits_numeral (m + 1)
    rw [Int.negSucc_eq] at hv ⊢
    show atoi D ⟨'-' :: Nat.toDigits 10 (m + 1)⟩ = _
    rw [atoi_minus_digits D hne hall (by omega), hval]
    rfl

section

open Prog

variable {D : Deps}

/-- The page size a listing call asks for: the `n` of `ListTags` and of `List`. -/
def Call.pageSize : Call D → Option Int
  | .manifestListTags _ n _ | .manifestList n => some n
  | _ => none

theorem writeJson_pageSize (j : Json) : (writeJson (D := D) j).Always fun e => e.1.pageSize = none := by
  simp only [writeJson, setHeader, writeHeader, write, call_bind, Prog.pure_bind, pure_eq,
    always_call, always_pure, Call.Ret, Option.forall, Call.pageSize, and_true, true_and,
    implies_true, forall_const]

/-- `handleTags` asks `ListTags` for 10000 tags when the query has no `n`, and otherwise for
the `int` that `strconv.Atoi` reads from it without error. -/
theorem handleTags_pageSize (req : Request D) :
    (handleTags req).Always fun e => ∀ n, e.1.pageSize = some n →
      (queryGet req.query "n" = "" ∧ n = 10000) ∨ atoi D (queryGet req.query "n") = (n, none) := by
  unfold handleTags
  split
  · exact fun r => r.elim
  · split
    · simp only [authorize, call_bind, Prog.pure_bind, pure_eq, always_call, Call.Ret,
        Option.forall, Call.pageSize]
      refine ⟨⟨nofun, ?_⟩, fun _ => ⟨nofun, always_pure⟩⟩
      split
      · exact always_pure
      · rename_i n hparsed
        simp only [manifestListTags, call_bind, Prog.pure_bind, always_call, Call.Ret,
          Option.some.injEq, Call.pageSize]
        refine fun _ => ⟨fun n' hn' => ?_, ?_⟩
        · subst hn'
          split at hparsed
          · exact .inl ⟨‹_›, (Prod.mk.inj hparsed).1.symm⟩
          · exact .inr hparsed
        · split
          · exact always_pure
          · exact Safe.mono (writeJson_pageSize _) fun _ _ h n hn => nomatch h.symm.trans hn
    · exact always_pure

/-- `handleCatalog` asks `List` for 10000 repositories when the query has no `n`, and
otherwise for whatever `strconv.Atoi` reads from it, its error dropped. -/
theorem handleCatalog_pageSize (req : Request D) :
    (handleCatalog req).Always fun e => ∀ n, e.1.pageSize = some n →
      (queryGet req.query "n" = "" ∧ n = 10000) ∨
        (queryGet req.query "n" ≠ "" ∧ n = (atoi D (queryGet req.query "n")).1) := by
  unfold handleCatalog
  split
  · simp only [manifestList, call_bind, Prog.pure_bind, pure_eq, always_call, Call.Ret,
      Call.pageSize, Option.some.injEq]
    refine fun _ => ⟨fun n hn => ?_, ?_⟩
    · subst hn
      split
      · exact .inl ⟨‹_›, rfl⟩
      · exact .inr ⟨‹_›, rfl⟩
    · split
      · exact always_pure
      · exact Safe.mono (writeJson_pageSize _) fun _ _ h n hn => nomatch h.symm.trans hn
  · exact always_pure

/-- The page size round trip.  When the query's `n` is the decimal of an `int` (or absent,
for 10000), every `ListTags` call of `handleTags` and every `List` call of `handleCatalog`
asks for exactly that many entries, whatever the collaborators answer. -/
theorem page_size_round_trip (req : Request D) (v : Int)
    (hv : -9223372036854775808 ≤ v ∧ v < 9223372036854775808)
    (hn : queryGet req.query "n" = toString v ∨ (queryGet req.query "n" = "" ∧ v = 10000)) :
    (handleTags req).Always (fun e => ∀ n, e.1.pageSize = some n → n = v) ∧
      (handleCatalog req).Always (fun e => ∀ n, e.1.pageSize = some n → n = v) := by
  have hempty : queryGet req.query "n" = "" → v = 10000 := fun h0 =>
    hn.elim (fun hq => absurd (hq.symm.trans h0) (toString_ne_empty v)) (·.2)
  refine ⟨Safe.mono (handleTags_pageSize req) fun _ _ h n hn' => ?_,
    Safe.mono (handleCatalog_pageSize req) fun _ _ h n hn' => ?_⟩
  · rcases h n hn' with ⟨h0, rfl⟩ | hatoi
    · exact (hempty h0).symm
    · rcases hn with hq | ⟨hq, -⟩
      · rw [hq, atoi_toString D v hv] at hatoi
        exact (Prod.mk.inj hatoi).1.symm
      · rw [hq] at hatoi
        cases hatoi
  · rcases h n hn' with ⟨h0, rfl⟩ | ⟨hne, rfl⟩
    · exact (hempty h0).symm
    · rcases hn with hq | ⟨hq, -⟩
      · rw [hq, atoi_toString D v hv]
      · exact absurd hq hne

/-- A GET of the tags with `n=-5`: both listings ask for -5 entries. -/
theorem page_size_round_trip_minus :
    ((-9223372036854775808 : Int) ≤ -5 ∧ (-5 : Int) < 9223372036854775808) ∧
      queryGet [("n", "-5")] "n" = toString (-5 : Int) ∧
      (handleTags (⟨"GET", "/v2/acme/app/tags/list", [("n", "-5")], "", .ok Json.null⟩ :
          Request jsonDeps)).Always (fun e => ∀ n, e.1.pageSize = some n → n = -5) ∧
      (handleCatalog (⟨"GET", "/v2/acme/app/tags/list", [("n", "-5")], "", .ok Json.null⟩ :
          Request jsonDeps)).Always (fun e => ∀ n, e.1.pageSize = some n → n = -5) :=
  ⟨by decide, rfl, page_size_round_trip _ _ (by decide) (.inl rfl)⟩

end

end DistrRegistry
