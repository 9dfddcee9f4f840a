/-
The URL shapes of `manifest.go`: the classifiers `isManifest`, `isTags`, `isCatalog` and
`isReferrers`, the repository and target the handlers cut out of a path, and the `Location`
`handlePut` answers with, built by `url.URL.JoinPath`, that is `path.Join` and so `path.Clean`.

A path a classifier accepts has segments `s`, the root, at least one repository segment, the
kind and the last (`goSplit_of_isRoute`); the parse on those segments is in range and returns
the repository segments joined and the last (`repoTarget_of_goSplit`), and joining the
segments gives the path back (`eq_of_goSplit`).
-/
import DistrRegistry.Basic

namespace DistrRegistry

/-- `strings.HasPrefix`. -/
def hasPrefix (s pre : String) : Bool := pre.toList.isPrefixOf s.toList

/-- `strings.HasSuffix`. -/
def hasSuffix (s suf : String) : Bool := suf.toList.isSuffixOf s.toList

/-- `strings.Split(req.URL.Path, "/")[1:]`: the segments after the one before the leading `/`.
`strings.Split` returns at least one element, so the slice never panics. -/
def pathElems (path : String) : List String := (goSplit path '/').tail

/-- `isManifest`, `isTags` and `isReferrers`: at least four segments, the second to last of
them `kind`. -/
def isRoute (kind path : String) : Bool :=
  let elems := pathElems path
  if elems.length < 4 then false else elems.getD (elems.length - 2) "" == kind

/-- `isManifest`. -/
def isManifest (path : String) : Bool := isRoute "manifests" path

/-- `isTags`. -/
def isTags (path : String) : Bool := isRoute "tags" path

/-- `isReferrers`. -/
def isReferrers (path : String) : Bool := isRoute "referrers" path

/-- `isCatalog`: at least two segments, the last of them `_catalog`. -/
def isCatalog (path : String) : Bool :=
  let elems := pathElems path
  if elems.length < 2 then false else elems.getD (elems.length - 1) "" == "_catalog"

/-- The path parse `handle`, `handleTags` and `handleReferrers` share:
`target := elem[len(elem)-1]` and `repo := strings.Join(elem[1:len(elem)-2], "/")`.  It is
`none` where Go panics: below three segments `elem[1:len(elem)-2]` is out of range. -/
def repoTarget (path : String) : Option (String × String) :=
  let elem := pathElems path
  if elem.length < 3 then none
  else some (String.intercalate "/" ((elem.take (elem.length - 2)).drop 1),
    elem.getD (elem.length - 1) "")

/-- One segment of `path.Clean`'s scan onto the segments kept so far, last first: empty and
`.` segments vanish; `..` removes the segment before it, unless that one is `..` as well or
there is none, where it stays in a relative path and vanishes at the root. -/
def cleanSegment (rooted : Bool) (kept : List String) (seg : String) : List String :=
  if seg = "" ∨ seg = "." then kept
  else if seg = ".." then
    match kept with
    | top :: rest => if top = ".." then seg :: kept else rest
    | [] => if rooted then [] else [seg]
  else seg :: kept

/-- `path.Clean`. -/
def pathClean (p : String) : String :=
  if p = "" then "."
  else
    let rooted := hasPrefix p "/"
    let body := String.intercalate "/" ((goSplit p '/').foldl (cleanSegment rooted) []).reverse
    if rooted then "/" ++ body else if body = "" then "." else body

/-- `path.Join`: the elements from the first non-empty one on, joined by `/` and cleaned; `""`
when all are empty. -/
def pathJoin (elems : List String) : String :=
  if elems.all (· = "") then ""
  else pathClean (String.intercalate "/" (elems.dropWhile (· = "")))

/-- `req.URL.JoinPath(elem).Path` for a request URL with an empty `RawPath`.  `EscapedPath`
and `setPath` escape and unescape each segment and leave `/` and `.` alone, so on such a URL
they cancel around `path.Join`. -/
def joinPath (path elem : String) : String :=
  let p := if hasPrefix path "/" then pathJoin [path, elem]
    else (pathJoin ["/" ++ path, elem]).drop 1
  if hasSuffix elem "/" && !hasSuffix p "/" then p ++ "/" else p

/-- A segment `path.Clean` keeps as it is: not empty, not `.` or `..`, and without `/`. -/
def Plain (seg : String) : Prop := seg ≠ "" ∧ seg ≠ "." ∧ seg ≠ ".." ∧ '/' ∉ seg.toList

instance : DecidablePred Plain := fun _ => inferInstanceAs (Decidable (_ ∧ _))

theorem data_intercalate_go (acc s : String) (l : List String) :
    (String.intercalate.go acc s l).data =
      acc.data ++ (l.map fun a => s.data ++ a.data).flatten := by
  induction l generalizing acc with
  | nil => simp [String.intercalate.go]
  | cons a l ih =>
    simp only [String.intercalate.go]
    rw [ih]
    simp

theorem intercalate_cons {α : Type} (sep a : List α) (l : List (List α)) :
    List.intercalate sep (a :: l) = a ++ (l.map (sep ++ ·)).flatten := by
  induction l generalizing a with
  | nil => simp [List.intercalate]
  | cons b l ih =>
    simp only [List.intercalate, List.intersperse_cons_cons, List.flatten_cons] at ih ⊢
    rw [ih]
    simp

theorem data_intercalate (s : String) (l : List String) :
    (String.intercalate s l).data = List.intercalate s.data (l.map String.data) := by
  cases l with
  | nil => rfl
  | cons a l =>
    rw [String.intercalate, data_intercalate_go, List.map_cons, intercalate_cons, List.map_map]
    rfl

theorem intercalate_append_singleton {segs : List String} (hne : segs ≠ []) (d : String) :
    String.intercalate "/" (segs ++ [d]) = String.intercalate "/" segs ++ "/" ++ d := by
  obtain ⟨a, l, rfl⟩ := List.exists_cons_of_ne_nil hne
  apply String.ext
  simp [data_intercalate, intercalate_cons]

theorem intercalate_cons_of_ne_nil (a : String) {l : List String} (hl : l ≠ []) :
    String.intercalate "/" (a :: l) = a ++ "/" ++ String.intercalate "/" l := by
  obtain ⟨b, l, rfl⟩ := List.exists_cons_of_ne_nil hl
  apply String.ext
  simp [data_intercalate, intercalate_cons]

theorem goSplit_intercalate {segs : List String} (hsegs : ∀ s ∈ segs, '/' ∉ s.toList)
    (hne : segs ≠ []) : goSplit (String.intercalate "/" segs) '/' = segs := by
  show ((String.intercalate "/" segs).data.splitOn '/').map String.mk = segs
  rw [data_intercalate, show "/".data = ['/'] from rfl, List.splitOn_intercalate,
    List.map_map, show (String.mk ∘ String.data) = id from rfl, List.map_id]
  · simpa using hsegs
  · simpa using hne

/-- Joining the segments of a split gives the string back. -/
theorem intercalate_goSplit (s : String) : String.intercalate "/" (goSplit s '/') = s := by
  apply String.ext
  rw [data_intercalate, goSplit, List.map_map, show (String.data ∘ String.mk) = id from rfl,
    List.map_id]
  exact List.intercalate_splitOn s.data '/'

theorem goSplit_rooted (s : String) : goSplit ("/" ++ s) '/' = "" :: goSplit s '/' := by
  rw [show "/" ++ s = "" ++ String.singleton '/' ++ s from rfl, goSplit_append,
    goSplit_of_not_mem (by simp)]
  rfl

theorem pathElems_rooted {segs : List String} (hsegs : ∀ s ∈ segs, '/' ∉ s.toList)
    (hne : segs ≠ []) : pathElems ("/" ++ String.intercalate "/" segs) = segs := by
  rw [pathElems, goSplit_rooted, goSplit_intercalate hsegs hne]
  rfl

/-! The paths the classifiers accept. -/

/-- The segments of a path `isRoute kind` accepts: the one before the first `/`, the root, at
least one segment of the repository, `kind` and the last. -/
theorem goSplit_of_isRoute {kind p : String} (h : isRoute kind p = true) :
    ∃ s root repoSegs last, repoSegs ≠ [] ∧
      goSplit p '/' = s :: root :: repoSegs ++ [kind, last] := by
  obtain ⟨s, elems, hsplit⟩ := List.exists_cons_of_ne_nil (goSplit_ne_nil p '/')
  have helems : pathElems p = elems := by rw [pathElems, hsplit]; rfl
  rw [isRoute, helems] at h
  split at h
  · cases h
  · rename_i hlen
    obtain ⟨root, t, rfl⟩ := List.exists_cons_of_length_pos (by omega : 0 < elems.length)
    simp only [List.length_cons] at hlen
    obtain ⟨k, last, hkl⟩ := List.length_eq_two.mp
      (by simp; omega : (t.drop (t.length - 2)).length = 2)
    have ht : t = t.take (t.length - 2) ++ [k, last] := by rw [← hkl, List.take_append_drop]
    refine ⟨s, root, t.take (t.length - 2), last, List.ne_nil_of_length_pos (by simp; omega), ?_⟩
    rw [ht] at h
    simp [List.getD_eq_getElem?_getD, List.getElem?_append_right, List.getElem_append_right] at h
    rw [hsplit, ← h, List.cons_append, List.cons_append, ← ht]

/-- The parse of a path by its segments: the repository is the segments between the root and
the second to last, the target the last. -/
theorem repoTarget_of_goSplit {p s root k last : String} {repoSegs : List String}
    (h : goSplit p '/' = s :: root :: repoSegs ++ [k, last]) :
    repoTarget p = some (String.intercalate "/" repoSegs, last) := by
  rw [repoTarget, pathElems, h]
  simp [List.take_append_eq_append_take, List.getD_eq_getElem?_getD, List.getElem?_append_right,
    List.getElem_append_right]

/-- The parse of a path a classifier accepts is in range. -/
theorem repoTarget_of_isRoute {kind p : String} (h : isRoute kind p = true) :
    ∃ repo target, repoTarget p = some (repo, target) := by
  obtain ⟨_, _, _, _, -, hsplit⟩ := goSplit_of_isRoute h
  exact ⟨_, _, repoTarget_of_goSplit hsplit⟩

/-- A path is its segments joined by `/`. -/
theorem eq_of_goSplit {p s root k last : String} {repoSegs : List String} (hne : repoSegs ≠ [])
    (h : goSplit p '/' = s :: root :: repoSegs ++ [k, last]) :
    p = s ++ "/" ++ root ++ "/" ++ String.intercalate "/" repoSegs ++ "/" ++ k ++ "/" ++ last := by
  rw [← intercalate_goSplit p, h, List.cons_append, List.cons_append,
    intercalate_cons_of_ne_nil _ (by simp), intercalate_cons_of_ne_nil _ (by simp),
    show repoSegs ++ [k, last] = repoSegs ++ [k] ++ [last] by simp,
    intercalate_append_singleton (by simp), intercalate_append_singleton hne]
  simp only [String.append_assoc]

/-- Path classification guards the path parse.  For every path `isRoute kind` accepts
(`isManifest`, `isTags` and `isReferrers` are `isRoute` at `manifests`, `tags` and
`referrers`), the slices `elem[len(elem)-1]` and `elem[1:len(elem)-2]` that `handle`,
`handleTags` and `handleReferrers` take are in range, and the path is
`s/root/repo/kind/last` with `s`, `root` and `last` free of `/`, where `repo` and
`last` are what the parse returns.  So two such paths with the same first two segments that
parse alike are the same path. -/
theorem classified_path_parse (kind : String) :
    (∀ p, isRoute kind p = true → 3 ≤ (pathElems p).length ∧
      ∃ s root repo last, '/' ∉ s.toList ∧ '/' ∉ root.toList ∧ '/' ∉ last.toList ∧
        p = s ++ "/" ++ root ++ "/" ++ repo ++ "/" ++ kind ++ "/" ++ last ∧
        repoTarget p = some (repo, last)) ∧
    ∀ p₁ p₂, isRoute kind p₁ = true → isRoute kind p₂ = true →
      (goSplit p₁ '/').take 2 = (goSplit p₂ '/').take 2 →
      repoTarget p₁ = repoTarget p₂ → p₁ = p₂ := by
  refine ⟨fun p hp => ?shape, fun p₁ p₂ h₁ h₂ hhead hparse => ?same⟩
  case shape =>
    obtain ⟨s, root, repoSegs, last, hne, hsplit⟩ := goSplit_of_isRoute hp
    have hseg : ∀ x ∈ goSplit p '/', '/' ∉ x.toList := fun _ => sep_not_mem_of_mem_goSplit
    rw [hsplit] at hseg
    refine ⟨?_, s, root, _, last, hseg s (by simp), hseg root (by simp), hseg last (by simp),
      eq_of_goSplit hne hsplit, repoTarget_of_goSplit hsplit⟩
    rw [pathElems, hsplit]
    simp
  case same =>
    obtain ⟨s₁, root₁, segs₁, last₁, hne₁, hsplit₁⟩ := goSplit_of_isRoute h₁
    obtain ⟨s₂, root₂, segs₂, last₂, hne₂, hsplit₂⟩ := goSplit_of_isRoute h₂
    rw [hsplit₁, hsplit₂] at hhead
    rw [repoTarget_of_goSplit hsplit₁, repoTarget_of_goSplit hsplit₂] at hparse
    simp only [List.cons_append, List.take_succ_cons, List.take_zero, List.cons.injEq,
      and_true] at hhead
    obtain ⟨rfl, rfl⟩ := hhead
    obtain ⟨hrepo, rfl⟩ := Prod.mk.inj (Option.some.inj hparse)
    rw [eq_of_goSplit hne₁ hsplit₁, eq_of_goSplit hne₂ hsplit₂, hrepo]

/-- The manifest path `/v2/acme/app/manifests/v1` is accepted, and its parse is in range. -/
theorem classified_path_parse_v1 :
    isManifest "/v2/acme/app/manifests/v1" = true ∧
      3 ≤ (pathElems "/v2/acme/app/manifests/v1").length ∧
      ∃ s root repo last, '/' ∉ s.toList ∧ '/' ∉ root.toList ∧ '/' ∉ last.toList ∧
        "/v2/acme/app/manifests/v1" = s ++ "/" ++ root ++ "/" ++ repo ++ "/" ++ "manifests" ++ "/" ++
          last ∧ repoTarget "/v2/acme/app/manifests/v1" = some (repo, last) :=
  ⟨by decide, (classified_path_parse "manifests").1 _ (by decide)⟩

/-! `path.Clean` and `JoinPath` on plain segments. -/

theorem cleanSegment_empty (rooted : Bool) (kept : List String) :
    cleanSegment rooted kept "" = kept := by
  simp [cleanSegment]

theorem cleanSegment_plain (rooted : Bool) (kept : List String) {seg : String} (h : Plain seg) :
    cleanSegment rooted kept seg = seg :: kept := by
  obtain ⟨h1, h2, h3, -⟩ := h
  unfold cleanSegment
  rw [if_neg (by tauto), if_neg h3]

theorem foldl_cleanSegment_plain (rooted : Bool) (kept : List String) {segs : List String}
    (hsegs : ∀ s ∈ segs, Plain s) : segs.foldl (cleanSegment rooted) kept = segs.reverse ++ kept := by
  induction segs generalizing kept with
  | nil => rfl
  | cons s segs ih =>
    obtain ⟨hs, hrest⟩ := List.forall_mem_cons.mp hsegs
    rw [List.foldl_cons, cleanSegment_plain rooted kept hs, ih _ hrest]
    simp

theorem pathClean_rooted {segs : List String} (hsegs : ∀ s ∈ segs, Plain s) (hne : segs ≠ []) :
    pathClean ("/" ++ String.intercalate "/" segs) = "/" ++ String.intercalate "/" segs := by
  have hslash : ∀ s ∈ segs, '/' ∉ s.toList := fun s hs => (hsegs s hs).2.2.2
  have hroot : hasPrefix ("/" ++ String.intercalate "/" segs) "/" = true := by
    simp [hasPrefix, List.isPrefixOf]
  rw [pathClean, if_neg (by simp [String.ext_iff]), hroot, goSplit_rooted,
    goSplit_intercalate hslash hne]
  simp only [List.foldl_cons, cleanSegment_empty, foldl_cleanSegment_plain true [] hsegs,
    List.append_nil, List.reverse_reverse, if_true]

theorem rooted_ne_empty (s : String) : "/" ++ s ≠ "" := by
  simp [String.ext_iff]

theorem hasSuffix_slash {d : String} (hd : '/' ∉ d.toList) : hasSuffix d "/" = false := by
  rw [hasSuffix, Bool.eq_false_iff]
  intro h
  exact hd ((List.isSuffixOf_iff_suffix.mp h).subset (List.mem_singleton_self '/'))

/-- Joining a plain segment to a path of plain segments appends it. -/
theorem joinPath_rooted {segs : List String} (hsegs : ∀ s ∈ segs, Plain s) (hne : segs ≠ [])
    {d : String} (hd : Plain d) :
    joinPath ("/" ++ String.intercalate "/" segs) d =
      "/" ++ String.intercalate "/" (segs ++ [d]) := by
  have hroot : hasPrefix ("/" ++ String.intercalate "/" segs) "/" = true := by
    simp [hasPrefix, List.isPrefixOf]
  have hplain : ∀ s ∈ segs ++ [d], Plain s := by
    simpa [or_imp, forall_and] using ⟨hsegs, hd⟩
  have hjoin : pathJoin ["/" ++ String.intercalate "/" segs, d] =
      "/" ++ String.intercalate "/" (segs ++ [d]) := by
    rw [pathJoin, if_neg (by simp [rooted_ne_empty]),
      List.dropWhile_cons_of_neg (by simp [rooted_ne_empty])]
    rw [show String.intercalate "/" ["/" ++ String.intercalate "/" segs, d] =
      "/" ++ String.intercalate "/" (segs ++ [d]) by
        rw [intercalate_append_singleton hne]; simp [String.intercalate, String.intercalate.go,
          String.append_assoc]]
    exact pathClean_rooted hplain (by simp)
  simp only [joinPath, hroot, if_true, hjoin, hasSuffix_slash hd.2.2.2, Bool.false_and,
    Bool.false_eq_true, if_false]

/-- A valid digest is a plain segment. -/
theorem Hash.plain_toString {h : Hash} (hv : h.Valid) : Plain h.toString := by
  obtain ⟨halg, hlen, hhex⟩ := hv
  have hl : h.toString.length = 71 := by
    rw [Hash.toString, halg, String.length_append, String.length_append, hlen]
    rfl
  refine ⟨fun e => ?_, fun e => ?_, fun e => ?_, ?_⟩ <;> try (rw [e] at hl; exact absurd hl (by decide))
  intro hm
  simp only [Hash.toString, halg, String.toList, String.data_append, List.mem_append] at hm
  rcases hm with (hm | hm) | hm
  · revert hm; decide
  · revert hm; decide
  · exact absurd (List.all_eq_true.mp hhex '/' hm) (by decide)

/-- `handle`'s parse of a manifest path of plain segments `/s/r₁/…/rₖ/manifests/t`. -/
theorem repoTarget_manifestPath {s t : String} {repoSegs : List String}
    (hplain : ∀ x ∈ s :: repoSegs ++ ["manifests", t], Plain x) :
    repoTarget ("/" ++ String.intercalate "/" (s :: repoSegs ++ ["manifests", t])) =
      some (String.intercalate "/" repoSegs, t) := by
  refine @repoTarget_of_goSplit _ "" s "manifests" t repoSegs ?_
  rw [goSplit_rooted, goSplit_intercalate (fun x hx => (hplain x hx).2.2.2) (List.cons_ne_nil _ _)]
  rfl

/-- The parse of that path with one more plain segment `d`: the repository takes in
`manifests`, and `d` is the target. -/
theorem repoTarget_manifestPath_append {s t d : String} {repoSegs : List String}
    (hplain : ∀ x ∈ s :: repoSegs ++ ["manifests", t, d], Plain x) :
    repoTarget ("/" ++ String.intercalate "/" (s :: repoSegs ++ ["manifests", t, d])) =
      some (String.intercalate "/" (repoSegs ++ ["manifests"]), d) := by
  refine @repoTarget_of_goSplit _ "" s t d (repoSegs ++ ["manifests"]) ?_
  rw [goSplit_rooted, goSplit_intercalate (fun x hx => (hplain x hx).2.2.2) (List.cons_ne_nil _ _)]
  simp

theorem isManifest_manifestPath_append {s t d : String} {repoSegs : List String}
    (hplain : ∀ x ∈ s :: repoSegs ++ ["manifests", t, d], Plain x) :
    isManifest ("/" ++ String.intercalate "/" (s :: repoSegs ++ ["manifests", t, d])) =
      (t == "manifests") := by
  rw [isManifest, isRoute, pathElems_rooted (fun x hx => (hplain x hx).2.2.2) (List.cons_ne_nil _ _)]
  simp [List.getD_eq_getElem?_getD, List.getElem?_append_right, List.getElem_append_right]

/-- `req.URL.JoinPath(d)` on a manifest path of plain segments appends `/d` after the
target, so `handle` parses the result into the repository followed by `manifests`, with the
target `d`, and `isManifest` accepts it only when the old target was `manifests`. -/
theorem manifestPath_joinPath {p s t d : String} {repoSegs : List String}
    (hpath : p = "/" ++ String.intercalate "/" (s :: repoSegs ++ ["manifests", t]))
    (hplain : ∀ x ∈ s :: repoSegs ++ ["manifests", t], Plain x) (hd : Plain d) :
    joinPath p d = p ++ "/" ++ d ∧
    repoTarget (p ++ "/" ++ d) = some (String.intercalate "/" (repoSegs ++ ["manifests"]), d) ∧
    isManifest (p ++ "/" ++ d) = (t == "manifests") := by
  have hsegs : s :: repoSegs ++ ["manifests", t, d] = (s :: repoSegs ++ ["manifests", t]) ++ [d] := by
    simp
  have hplain' : ∀ x ∈ s :: repoSegs ++ ["manifests", t, d], Plain x := by
    rw [hsegs]
    intro x hx
    rcases List.mem_append.mp hx with hx | hx
    · exact hplain x hx
    · rw [List.mem_singleton.mp hx]
      exact hd
  have happ : p ++ "/" ++ d = "/" ++ String.intercalate "/" (s :: repoSegs ++ ["manifests", t, d]) := by
    rw [hsegs, intercalate_append_singleton (by simp), hpath]
    simp only [String.append_assoc]
  refine ⟨?_, happ ▸ repoTarget_manifestPath_append hplain', happ ▸ isManifest_manifestPath_append hplain'⟩
  rw [happ, hsegs, hpath]
  exact joinPath_rooted hplain (by simp) hd

end DistrRegistry
