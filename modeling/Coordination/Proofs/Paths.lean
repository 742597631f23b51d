import Coordination.Tree

/-!
Paths as the node tree relies on them. Parent, name and join undo one another
(`parent_name_join`): a well-formed path other than the root has a well-formed parent and a name
without slashes that join back to it, and a well-formed path joined with a name that is not
empty, `.` or `..` and holds no slash is a well-formed path with that parent and that name.
Joining a path and two names gives two paths only for two names (`join_injective`). A
well-formed path followed by a text without slashes of two or more characters, such as a
sequence number, is a well-formed path with the same parent (`sequential_path`).

Each of these comes from one reading of a text cut at a slash: the whole is well formed exactly
when the part before the slash is empty or a well-formed path other than the root and the part
after it is a name (`defectOf_append_slash`, `prefix_of_append_slash`).
-/

namespace Coordination.Path

/-! ### Well-formed paths -/

theorem defectOf_eq_none {cs : List Char} :
    defectOf cs = none ↔ cs = ['/'] ∨
      (cs.head? = some '/' ∧ cs.getLast? ≠ some '/' ∧ hasDoubleSlash cs = false ∧
        (pieces cs).any isDots = false) := by
  by_cases hroot : cs = ['/']
  · subst hroot
    simp [defectOf]
  · unfold defectOf
    repeat' split
    all_goals simp_all

theorem isValid_iff {p : String} :
    IsValid p ↔ p.toList = ['/'] ∨
      (p.toList.head? = some '/' ∧ p.toList.getLast? ≠ some '/' ∧
        hasDoubleSlash p.toList = false ∧ (pieces p.toList).any isDots = false) :=
  defectOf_eq_none

theorem isValid_root : IsValid "/" := by decide

@[simp] theorem hasDoubleSlash_singleton (c : Char) : hasDoubleSlash [c] = false := by
  by_cases hc : c = '/' <;> simp [hasDoubleSlash, hc]

theorem hasDoubleSlash_cons_cons (c d : Char) (l : List Char) :
    hasDoubleSlash (c :: d :: l) = ((c == '/' && d == '/') || hasDoubleSlash (d :: l)) := by
  by_cases hc : c = '/' <;> by_cases hd : d = '/' <;> simp [hasDoubleSlash, hc, hd]

theorem hasDoubleSlash_of_not_mem {cs : List Char} (h : '/' ∉ cs) : hasDoubleSlash cs = false := by
  induction cs with
  | nil => rfl
  | cons c rest ih =>
    have hc : c ≠ '/' := fun hc => h (hc ▸ List.mem_cons_self)
    simpa [hasDoubleSlash, hc] using ih fun hr => h (List.mem_cons_of_mem _ hr)

/-- Two slashes meet in a joined text where they meet in one of its parts, or where the first
part ends and the second starts with a slash. -/
theorem hasDoubleSlash_append_eq (cs ds : List Char) :
    hasDoubleSlash (cs ++ ds) = (hasDoubleSlash cs || hasDoubleSlash ds ||
      (cs.getLast? == some '/' && ds.head? == some '/')) := by
  induction cs with
  | nil => simp [hasDoubleSlash]
  | cons c rest ih =>
    cases rest with
    | nil =>
      cases ds with
      | nil => simp [hasDoubleSlash]
      | cons d ds => simp [hasDoubleSlash_cons_cons, Bool.or_comm]
    | cons d rest =>
      rw [List.cons_append, List.cons_append, hasDoubleSlash_cons_cons, ← List.cons_append, ih,
        hasDoubleSlash_cons_cons, List.getLast?_cons_cons]
      simp only [Bool.or_assoc]

theorem pieces_ne_nil (cs : List Char) : pieces cs ≠ [] := by
  cases cs with
  | nil => simp [pieces]
  | cons c rest =>
    simp only [pieces]
    split <;> (try split) <;> simp

theorem pieces_of_not_mem {cs : List Char} (h : '/' ∉ cs) : pieces cs = [cs] := by
  induction cs with
  | nil => rfl
  | cons c rest ih =>
    have hc : c ≠ '/' := fun hc => h (hc ▸ List.mem_cons_self)
    simp [pieces, ih fun hr => h (List.mem_cons_of_mem _ hr), hc]

theorem pieces_append_slash (cs ds : List Char) :
    pieces (cs ++ '/' :: ds) = pieces cs ++ pieces ds := by
  induction cs with
  | nil =>
    obtain ⟨seg, segs, hds⟩ := List.exists_cons_of_ne_nil (pieces_ne_nil ds)
    simp [pieces, hds]
  | cons c rest ih =>
    obtain ⟨seg, segs, hrest⟩ := List.exists_cons_of_ne_nil (pieces_ne_nil rest)
    simp only [List.cons_append, pieces, ih, hrest, List.cons_append]
    split <;> simp

theorem isDots_of_two_lt_length {seg : List Char} (h : 2 < seg.length) : isDots seg = false := by
  unfold isDots
  rcases seg with _ | ⟨a, _ | ⟨b, _ | ⟨c, l⟩⟩⟩ <;> simp_all

/-- A text, a slash and a name is a well-formed path when the text is empty or a well-formed path
other than the root, and the name is neither empty nor `.` or `..` and holds no slash. -/
theorem defectOf_append_slash {pre s : List Char}
    (hpre : pre = [] ∨ defectOf pre = none ∧ pre ≠ ['/']) (hs : '/' ∉ s) (hne : s ≠ [])
    (hdots : isDots s = false) : defectOf (pre ++ '/' :: s) = none := by
  -- what the text before the slash contributes, in both cases
  have hfront : (pre = [] ∨ pre.head? = some '/') ∧ pre.getLast? ≠ some '/' ∧
      hasDoubleSlash pre = false ∧ (pieces pre).any isDots = false := by
    rcases hpre with rfl | ⟨hv, hroot⟩
    · exact ⟨.inl rfl, by simp, rfl, rfl⟩
    · obtain hone | ⟨hhead, hlast, hdouble, hpieces⟩ := defectOf_eq_none.mp hv
      · exact absurd hone hroot
      · exact ⟨.inr hhead, hlast, hdouble, hpieces⟩
  obtain ⟨hhead, hlast, hdouble, hpieces⟩ := hfront
  have hslash : hasDoubleSlash ('/' :: s) = false := by
    have hfirst : s.head? ≠ some '/' := fun h => hs (List.mem_of_mem_head? h)
    rw [← List.singleton_append, hasDoubleSlash_append_eq, hasDoubleSlash_of_not_mem hs]
    simp [hfirst]
  refine defectOf_eq_none.mpr (.inr ⟨?_, ?_, ?_, ?_⟩)
  · rcases hhead with rfl | hhead
    · rfl
    · simp [List.head?_append, hhead]
  · rw [← List.singleton_append, ← List.append_assoc, List.getLast?_append]
    obtain ⟨c, hc⟩ := Option.ne_none_iff_exists'.mp (mt List.getLast?_eq_none_iff.mp hne)
    rw [hc, Option.some_or]
    intro heq
    exact hs (Option.some.inj heq ▸ List.mem_of_getLast? hc)
  · rw [hasDoubleSlash_append_eq, hdouble, hslash]
    simp [hlast]
  · rw [pieces_append_slash, pieces_of_not_mem hs, List.any_append, hpieces]
    simp [hdots]

/-- In a well-formed path, the text before a slash is empty or a well-formed path other than the
root. -/
theorem prefix_of_append_slash {pre s : List Char} (hv : defectOf (pre ++ '/' :: s) = none) :
    pre = [] ∨ defectOf pre = none ∧ pre ≠ ['/'] := by
  cases pre with
  | nil => exact .inl rfl
  | cons c rest =>
    obtain hone | ⟨hhead, -, hdouble, hdots⟩ := defectOf_eq_none.mp hv
    · simp at hone
    -- no two slashes meet: none inside the text, and it does not end with one
    rw [hasDoubleSlash_append_eq, Bool.or_eq_false_iff, Bool.or_eq_false_iff] at hdouble
    rw [pieces_append_slash, List.any_append, Bool.or_eq_false_iff] at hdots
    have hlast : (c :: rest).getLast? ≠ some '/' := by simpa using hdouble.2
    refine .inr ⟨defectOf_eq_none.mpr (.inr ⟨by simpa using hhead, hlast, hdouble.1.1, hdots.1⟩),
      fun hone => hlast (by rw [hone]; rfl)⟩

/-! ### Parent and name -/

theorem eq_of_beforeLastSlash {cs pre : List Char} (h : beforeLastSlash cs = some pre) :
    cs = pre ++ '/' :: (cs.reverse.takeWhile (· ≠ '/')).reverse := by
  unfold beforeLastSlash at h
  split at h
  · cases h
  · rename_i c rest hdrop
    cases h
    have hc := List.head_dropWhile_not (fun c => decide (c ≠ '/')) (l := cs.reverse)
      (by rw [hdrop]; simp)
    simp only [hdrop, List.head_cons, decide_eq_false_iff_not, Decidable.not_not] at hc
    subst hc
    have hsplit := List.takeWhile_append_dropWhile (p := fun c => decide (c ≠ '/'))
      (l := cs.reverse)
    rw [hdrop] at hsplit
    have hcs := congrArg List.reverse hsplit
    simp only [List.reverse_append, List.reverse_cons, List.reverse_reverse] at hcs
    simpa using hcs.symm

theorem reverse_ne_slash {ds : List Char} (hds : '/' ∉ ds) :
    ∀ c ∈ ds.reverse, decide (c ≠ '/') = true := by
  intro c hc
  simp only [decide_eq_true_eq]
  rintro rfl
  exact hds (List.mem_reverse.mp hc)

theorem beforeLastSlash_append {cs ds : List Char} (hds : '/' ∉ ds) :
    beforeLastSlash (cs ++ ds) = beforeLastSlash cs := by
  simp only [beforeLastSlash, List.reverse_append,
    List.dropWhile_append_of_pos (reverse_ne_slash hds)]

theorem beforeLastSlash_append_slash (pre : List Char) {s : List Char} (hs : '/' ∉ s) :
    beforeLastSlash (pre ++ '/' :: s) = some pre := by
  rw [← List.singleton_append, ← List.append_assoc, beforeLastSlash_append hs]
  simp [beforeLastSlash]

theorem not_mem_name (p : String) : '/' ∉ (name p).toList := by
  intro h
  simp only [name, String.toList_ofList, List.mem_reverse] at h
  have hall := List.all_eq_true.mp (List.all_takeWhile (p := fun c => decide (c ≠ '/'))
    (l := p.toList.reverse))
  simpa using hall '/' h

theorem toList_name_of_append {p : String} {pre s : List Char} (h : p.toList = pre ++ '/' :: s)
    (hs : '/' ∉ s) : (name p).toList = s := by
  unfold name
  rw [h, List.reverse_append, List.reverse_cons, List.append_assoc,
    List.takeWhile_append_of_pos (reverse_ne_slash hs)]
  simp

theorem toList_join (q c : String) :
    (join q c).toList = (if q.toList = ['/'] then [] else q.toList) ++ '/' :: c.toList := by
  unfold join
  split <;> simp

/-- A path with a parent is the text before its last slash, the slash and its name; the text
before the slash is the parent's, or empty for a parent that is the root. -/
theorem eq_of_parent {p q : String} (h : parent p = some q) :
    p.toList ≠ ['/'] ∧ ∃ pre, p.toList = pre ++ '/' :: (name p).toList ∧
      (pre = [] ∧ q = "/" ∨ pre ≠ [] ∧ q.toList = pre) := by
  unfold parent at h
  split at h
  · cases h
  · rename_i hroot
    refine ⟨hroot, ?_⟩
    split at h
    · cases h
    · rename_i heq
      cases h
      exact ⟨[], by simpa [name] using eq_of_beforeLastSlash heq, .inl ⟨rfl, rfl⟩⟩
    · rename_i pre hne heq
      cases h
      exact ⟨pre, by simpa [name] using eq_of_beforeLastSlash heq, .inr ⟨hne, by simp⟩⟩

theorem join_parent_name {p q : String} (hp : IsValid p) (h : parent p = some q) :
    join q (name p) = p := by
  obtain ⟨-, pre, hpre, hq⟩ := eq_of_parent h
  have hv : defectOf (pre ++ '/' :: (name p).toList) = none := by rw [← hpre]; exact hp
  rw [← String.toList_inj, toList_join, hpre]
  rcases hq with ⟨rfl, rfl⟩ | ⟨hne, hq⟩
  · simp
  · -- the parent is not the root written out, or two slashes would meet
    have hslash : pre ≠ ['/'] := by
      rcases prefix_of_append_slash hv with hnil | ⟨-, hslash⟩
      · exact absurd hnil hne
      · exact hslash
    simp [hq, hslash]

theorem join_injective (q : String) : Function.Injective (join q) := by
  intro a b h
  rw [← String.toList_inj]
  have h' := congrArg String.toList h
  unfold join at h'
  split at h' <;> simpa using h'

theorem parent_of_isValid {p : String} (hp : IsValid p) (hroot : p ≠ "/") :
    ∃ q, parent p = some q := by
  have hroot' : p.toList ≠ ['/'] := fun h => hroot (String.toList_inj.mp (by simpa using h))
  obtain hone | ⟨hhead, -, -, -⟩ := isValid_iff.mp hp
  · exact absurd hone hroot'
  have hslash : '/' ∈ p.toList.reverse := List.mem_reverse.mpr (List.mem_of_mem_head? hhead)
  -- the path starts with a slash, so some slash is its last
  have hdrop : p.toList.reverse.dropWhile (· ≠ '/') ≠ [] := by
    intro hnil
    have hsplit := List.takeWhile_append_dropWhile (p := fun c => decide (c ≠ '/'))
      (l := p.toList.reverse)
    rw [hnil, List.append_nil] at hsplit
    have hall := List.all_eq_true.mp (List.all_takeWhile (p := fun c => decide (c ≠ '/'))
      (l := p.toList.reverse))
    rw [hsplit] at hall
    simpa using hall '/' hslash
  obtain ⟨c, rest, hcons⟩ := List.exists_cons_of_ne_nil hdrop
  unfold parent beforeLastSlash
  rw [if_neg hroot', hcons]
  split
  · simp_all
  · exact ⟨_, rfl⟩
  · exact ⟨_, rfl⟩

theorem isValid_parent {p q : String} (hp : IsValid p) (h : parent p = some q) : IsValid q := by
  obtain ⟨-, pre, hpre, hq⟩ := eq_of_parent h
  rcases hq with ⟨-, rfl⟩ | ⟨hne, hq⟩
  · exact isValid_root
  · have hv : defectOf (pre ++ '/' :: (name p).toList) = none := by rw [← hpre]; exact hp
    rcases prefix_of_append_slash hv with hnil | ⟨hvalid, -⟩
    · exact absurd hnil hne
    · show defectOf q.toList = none
      rwa [hq]

theorem toList_name_ne_nil {p : String} {pre : List Char} (hp : IsValid p)
    (hroot : p.toList ≠ ['/']) (hpre : p.toList = pre ++ '/' :: (name p).toList) :
    (name p).toList ≠ [] := by
  intro h0
  obtain hone | ⟨-, hlast, -, -⟩ := isValid_iff.mp hp
  · exact hroot hone
  · rw [hpre, h0] at hlast
    simp at hlast

theorem name_ne_empty {p : String} (hp : IsValid p) (hroot : p ≠ "/") : name p ≠ "" := by
  obtain ⟨q, hq⟩ := parent_of_isValid hp hroot
  obtain ⟨hroot', pre, hpre, -⟩ := eq_of_parent hq
  have hname := toList_name_ne_nil hp hroot' hpre
  rintro hempty
  simp [hempty] at hname

/-! ### Numbered paths -/

theorem parent_append {p q s : String} (h : parent p = some q) (hs : '/' ∉ s.toList)
    (hne : s.toList ≠ []) : parent (p ++ s) = some q := by
  have hroot : (p ++ s).toList ≠ ['/'] := by
    obtain ⟨-, pre, hpre, -⟩ := eq_of_parent h
    rw [String.toList_append, hpre]
    intro heq
    have := congrArg List.length heq
    simp at this
    have := List.length_pos_iff.mpr hne
    omega
  unfold parent at h ⊢
  rw [if_neg hroot, String.toList_append, beforeLastSlash_append hs]
  split at h
  · cases h
  · exact h

/-- A text of two or more characters without slashes appended to a well-formed path with a
parent gives a well-formed path. -/
theorem isValid_append {p q s : String} (hp : IsValid p) (h : parent p = some q)
    (hs : '/' ∉ s.toList) (hlen : 2 ≤ s.toList.length) : IsValid (p ++ s) := by
  obtain ⟨hroot, pre, hpre, -⟩ := eq_of_parent h
  have hv : defectOf (pre ++ '/' :: (name p).toList) = none := by rw [← hpre]; exact hp
  have hname := toList_name_ne_nil hp hroot hpre
  have hlong : 2 < ((name p).toList ++ s.toList).length := by
    have := List.length_pos_iff.mpr hname
    simp only [List.length_append]
    omega
  show defectOf (p ++ s).toList = none
  rw [String.toList_append, hpre, List.append_assoc, List.cons_append]
  refine defectOf_append_slash (prefix_of_append_slash hv) ?_ ?_ (isDots_of_two_lt_length hlong)
  · simpa using And.intro (not_mem_name p) hs
  · simp [hname]

theorem sequenceSuffix_digits (n : Nat) :
    '/' ∉ (sequenceSuffix n).toList ∧ 2 ≤ (sequenceSuffix n).toList.length := by
  have hdigits : '/' ∉ (toString n).toList := by
    intro h
    rw [Nat.toString_eq_ofList_toDigits, String.toList_ofList] at h
    have := Nat.isDigit_of_mem_toDigits (by decide) (by decide) h
    exact absurd this (by decide)
  refine ⟨?_, ?_⟩
  · simp only [sequenceSuffix, String.toList_ofList, List.mem_append, List.mem_replicate]
    rintro (⟨-, h⟩ | h)
    · exact absurd h (by decide)
    · exact hdigits h
  · simp only [sequenceSuffix, String.toList_ofList, List.length_append, List.length_replicate]
    omega

/-- A sequence number appended to a well-formed path with a parent gives a well-formed path with
the same parent. -/
theorem sequential_path {p q : String} (hp : IsValid p) (h : parent p = some q) (k : Nat) :
    IsValid (p ++ sequenceSuffix k) ∧ parent (p ++ sequenceSuffix k) = some q := by
  obtain ⟨hs, hlen⟩ := sequenceSuffix_digits k
  refine ⟨isValid_append hp h hs hlen, parent_append h hs ?_⟩
  intro h0
  simp [h0] at hlen

/-! ### Joining a name -/

theorem toList_ne_nil_of_isValid {q : String} (hq : IsValid q) : q.toList ≠ [] := by
  obtain hone | ⟨hhead, -⟩ := isValid_iff.mp hq
  · simp [hone]
  · intro h
    simp [h] at hhead

/-- Joining a well-formed path and a name that is not empty, `.` or `..` and holds no slash gives a
well-formed path. -/
theorem isValid_join {q c : String} (hq : IsValid q) (hc : c ≠ "") (hs : '/' ∉ c.toList)
    (hdot : c ≠ ".") (hdots : c ≠ "..") : IsValid (join q c) := by
  show defectOf (join q c).toList = none
  rw [toList_join]
  refine defectOf_append_slash ?_ hs (by simpa using hc) ?_
  · split
    · exact .inl rfl
    · exact .inr ⟨hq, ‹_›⟩
  · have h1 : c.toList ≠ ['.'] := fun h => hdot (String.toList_inj.mp (by simpa using h))
    have h2 : c.toList ≠ ['.', '.'] := fun h => hdots (String.toList_inj.mp (by simpa using h))
    simp [isDots, h1, h2]

/-- The parent of a text that ends with a slash and a name without slashes: the text before the
slash, or the root when that is empty. -/
theorem parent_of_toList {p : String} {pre s : List Char} (h : p.toList = pre ++ '/' :: s)
    (hs : '/' ∉ s) (hne : s ≠ []) :
    parent p = some (if pre = [] then "/" else String.ofList pre) := by
  have hlong : p.toList ≠ ['/'] := by
    have hpos := List.length_pos_iff.mpr hne
    rw [h]
    intro heq
    have := congrArg List.length heq
    simp only [List.length_append, List.length_cons, List.length_nil] at this
    omega
  unfold parent
  rw [if_neg hlong, h, beforeLastSlash_append_slash _ hs]
  cases pre with
  | nil => rfl
  | cons x xs => simp

theorem parent_join {q c : String} (hq : IsValid q) (hc : c ≠ "") (hs : '/' ∉ c.toList) :
    parent (join q c) = some q := by
  rw [parent_of_toList (toList_join q c) hs (by simpa using hc)]
  by_cases hroot : q.toList = ['/']
  · have hq' : q = "/" := String.toList_inj.mp (by simpa using hroot)
    simp [hq']
  · simp [hroot, toList_ne_nil_of_isValid hq]

theorem name_join (q : String) {c : String} (hs : '/' ∉ c.toList) : name (join q c) = c :=
  String.toList_inj.mp (toList_name_of_append (toList_join q c) hs)

/-- A path and its parts. A well-formed path other than the root has a well-formed parent and a
name, not empty and without slashes, which join back to it; and joining a well-formed path and a
name that is not empty, `.` or `..` and holds no slash gives a well-formed path whose parent is
that path and whose name is that name. -/
theorem parent_name_join :
    (∀ p, IsValid p → p ≠ "/" → ∃ q, parent p = some q ∧ IsValid q ∧ name p ≠ "" ∧
      '/' ∉ (name p).toList ∧ join q (name p) = p) ∧
    (∀ q c, IsValid q → c ≠ "" → '/' ∉ c.toList → c ≠ "." → c ≠ ".." →
      IsValid (join q c) ∧ parent (join q c) = some q ∧ name (join q c) = c) := by
  refine ⟨fun p hp hroot => ?_, fun q c hq hc hs hdot hdots => ?_⟩
  · obtain ⟨q, hq⟩ := parent_of_isValid hp hroot
    exact ⟨q, hq, isValid_parent hp hq, name_ne_empty hp hroot, not_mem_name p,
      join_parent_name hp hq⟩
  · exact ⟨isValid_join hq hc hs hdot hdots, parent_join hq hc hs, name_join q hs⟩

/-- `/app/config` splits into `/app` and `config`, and `/app` and `db` join into a path below
`/app`. -/
theorem parent_name_join_app :
    IsValid "/app/config" ∧ IsValid "/app" ∧
      (∃ q, parent "/app/config" = some q ∧ IsValid q ∧ name "/app/config" ≠ "" ∧
        '/' ∉ (name "/app/config").toList ∧ join q (name "/app/config") = "/app/config") ∧
      (IsValid (join "/app" "db") ∧ parent (join "/app" "db") = some "/app" ∧
        name (join "/app" "db") = "db") :=
  ⟨by decide, by decide, parent_name_join.1 _ (by decide) (by decide),
    parent_name_join.2 _ _ (by decide) (by decide) (by decide) (by decide) (by decide)⟩

end Coordination.Path
