import Mathlib.Data.List.Induction
import PhpAudit.Proofs.Files.Placement

/-!
# Below a path

A path is continued by names. What a file system has at the longer path is what is behind these names in the
entry at the shorter one (`find_below`, `get?_of_find`), whatever links and dots the shorter path has, and as
long as none of the names is that of a link.
-/

namespace PhpAudit

/-! ## Texts -/

namespace Path

open FileTree (IsName)

/-- A path continued by names, one after the other. -/
def below (path : String) (names : List String) : String := names.foldl join path

variable {path name : String} {names : List String}

theorem below_append_singleton (path : String) (names : List String) (name : String) :
    below path (names ++ [name]) = join (below path names) name := by
  simp [below]

/-- A slash comes before the name, unless there is one. -/
theorem join_cases (hpath : path ≠ "") (hname : IsName name) :
    (∃ cs, path.toList = cs ++ ['/'] ∧ join path name = path ++ name) ∨
      join path name = path ++ "/" ++ name := by
  have hempty : path.isEmpty = false := String.isEmpty_eq_false_iff.2 hpath
  unfold join
  rw [hname.isAbsolute_eq, hempty, if_neg Bool.false_ne_true, Bool.false_or]
  cases hend : Text.endsWith path '/' with
  | false => exact .inr rfl
  | true =>
    obtain ⟨cs, hcs⟩ := List.getLast?_eq_some_iff.1 (eq_of_beq hend)
    exact .inl ⟨cs, hcs, rfl⟩

theorem exists_join_eq (hpath : path ≠ "") (hname : IsName name) :
    ∃ more, join path name = path ++ more := by
  rcases join_cases hpath hname with ⟨cs, -, hjoin⟩ | hjoin
  · exact ⟨name, hjoin⟩
  · exact ⟨"/" ++ name, by rw [hjoin, String.append_assoc]⟩

theorem isAbsolute_join (hpath : path ≠ "") (hname : IsName name) :
    isAbsolute (join path name) = isAbsolute path := by
  obtain ⟨more, hmore⟩ := exists_join_eq hpath hname
  obtain ⟨c, cs, hcs⟩ := List.exists_cons_of_ne_nil (by simpa using hpath : path.toList ≠ [])
  simp [isAbsolute, Text.startsWith, hmore, hcs, List.isPrefixOf]

theorem join_ne_empty (hpath : path ≠ "") (hname : IsName name) : join path name ≠ "" := by
  obtain ⟨more, hmore⟩ := exists_join_eq hpath hname
  simp [hmore, hpath]

theorem utf8ByteSize_le_join (hpath : path ≠ "") (hname : IsName name) :
    path.utf8ByteSize ≤ (join path name).utf8ByteSize := by
  obtain ⟨more, hmore⟩ := exists_join_eq hpath hname
  rw [hmore, String.utf8ByteSize_append]
  exact Nat.le_add_right _ _

theorem utf8ByteSize_join_le (hpath : path ≠ "") (hname : IsName name) :
    (join path name).utf8ByteSize ≤ path.utf8ByteSize + 1 + name.utf8ByteSize := by
  have hslash : "/".utf8ByteSize = 1 := by decide
  rcases join_cases hpath hname with ⟨cs, -, hjoin⟩ | hjoin
  · have hsize := congrArg String.utf8ByteSize hjoin
    rw [String.utf8ByteSize_append] at hsize
    omega
  · have hsize := congrArg String.utf8ByteSize hjoin
    rw [String.utf8ByteSize_append, String.utf8ByteSize_append, hslash] at hsize
    omega

theorem null_mem_join_iff (hpath : path ≠ "") (hname : IsName name) :
    '\x00' ∈ (join path name).toList ↔ '\x00' ∈ path.toList := by
  rcases join_cases hpath hname with ⟨cs, -, hjoin⟩ | hjoin <;> simp [hjoin, hname.no_null]

/-- The name is a piece of its own. What a path ends with behind a slash gives way to it. -/
theorem splitAt_join (hpath : path ≠ "") (hname : IsName name) :
    ∃ pieces, pieces ≠ [] ∧ Text.splitAt '/' (join path name) = pieces ++ [name] ∧
      (Text.splitAt '/' path = pieces ∨ Text.splitAt '/' path = pieces ++ [""]) := by
  have hword := Text.cutAt_eq_singleton hname.no_slash
  have hslash : "/".toList = ['/'] := rfl
  unfold Text.splitAt
  rcases join_cases hpath hname with ⟨cs, hcs, hjoin⟩ | hjoin
  · refine ⟨(Text.cutAt (· == '/') cs).map String.ofList, ?_, ?_, .inr ?_⟩
    · simpa using Text.cutAt_ne_nil cs
    · rw [hjoin, String.toList_append, hcs, List.append_assoc, List.singleton_append,
        Text.cutAt_append (by simp), hword]
      simp
    · rw [hcs, Text.cutAt_append (by simp)]
      simp [Text.cutAt]
  · refine ⟨(Text.cutAt (· == '/') path.toList).map String.ofList, ?_, ?_, .inl rfl⟩
    · simpa using Text.cutAt_ne_nil path.toList
    · rw [hjoin, String.toList_append, String.toList_append, hslash, List.append_assoc,
        List.singleton_append, Text.cutAt_append (by simp), hword]
      simp

theorem segments_join (hpath : path ≠ "") (hname : IsName name) :
    segments (join path name) = segments path ++ [name] := by
  obtain ⟨pieces, hne, hjoin, hsplit⟩ := splitAt_join hpath hname
  obtain ⟨first, rest, rfl⟩ := List.exists_cons_of_ne_nil hne
  unfold segments
  rcases hsplit with hsplit | hsplit <;> rw [hjoin, hsplit] <;>
    cases hfirst : first.isEmpty <;> simp [hfirst, hname.nonempty, hname.not_dot]

theorem below_ne_empty (hpath : path ≠ "") (hnames : ∀ n ∈ names, IsName n) :
    below path names ≠ "" := by
  induction names using List.reverseRecOn with
  | nil => exact hpath
  | append_singleton names name ih =>
    rw [below_append_singleton]
    exact join_ne_empty (ih fun n hn => hnames n (by simp [hn])) (hnames name (by simp))

theorem segments_below (hpath : path ≠ "") (hnames : ∀ n ∈ names, IsName n) :
    segments (below path names) = segments path ++ names := by
  induction names using List.reverseRecOn with
  | nil => simp [below]
  | append_singleton names name ih =>
    have hsome : ∀ n ∈ names, IsName n := fun n hn => hnames n (by simp [hn])
    rw [below_append_singleton, segments_join (below_ne_empty hpath hsome) (hnames name (by simp)),
      ih hsome, List.append_assoc]

theorem utf8ByteSize_below_le (hpath : path ≠ "") (hnames : ∀ n ∈ names, IsName n) :
    (below path names).utf8ByteSize ≤
      path.utf8ByteSize + (FileTree.maxNameBytes + 1) * names.length := by
  induction names using List.reverseRecOn with
  | nil => simp [below]
  | append_singleton names name ih =>
    have hsome : ∀ n ∈ names, IsName n := fun n hn => hnames n (by simp [hn])
    have hname := hnames name (by simp)
    have hle := utf8ByteSize_join_le (below_ne_empty hpath hsome) hname
    have hsize := hname.size_le
    have hih := ih hsome
    rw [below_append_singleton, List.length_append, List.length_singleton, Nat.mul_add]
    omega

end Path

/-! ## Ways -/

namespace FileTree

open PhpAudit.Path (join below)

/-- Where a segment of a path leads. -/
inductive Turn
  | fails (e : FileError)
  | goes (trail : Trail)
  | meets (target : String)

/-- Where a segment leads from the entry at the start of `trail`: to another entry, or to a link. -/
def turn (root : Entry) (trail : Trail) (name : String) : Turn :=
  if !(top root trail).isDir then .fails .notDirectory
  else if name = "." then .goes trail
  else if name = ".." then .goes trail.tail
  else if maxNameBytes < name.utf8ByteSize then .fails .nameTooLong
  else
    match (top root trail).child? name with
    | none => .fails .notFound
    | some (.link target) => .meets target
    | some e => .goes ((name, e) :: trail)

/-- A link at the end of a path is taken as it is, and there has to be something. -/
def asWritten : Mode := ⟨false, false⟩

variable {root : Entry} {trail : Trail} {ahead rest : List String} {spot : Spot} {n : Nat}

theorem walk_cons (root : Entry) (jump : Trail → List String → Except FileError Spot) (trail : Trail)
    (name : String) (rest : List String) :
    walk root asWritten jump trail (name :: rest) =
      match turn root trail name with
      | .fails e => .error e
      | .goes trail => walk root asWritten jump trail rest
      | .meets target =>
        if rest.isEmpty then .ok ⟨(name, .link target) :: trail, none⟩
        else jump (if Path.isAbsolute target then [] else trail) (steps target ++ rest) := by
  rw [walk]
  unfold turn
  split
  · rfl
  split
  · rfl
  split
  · rfl
  split
  · rfl
  cases (top root trail).child? name with
  | none => rfl
  | some e =>
    cases e with
    | link target => simp [asWritten]
    | file content => rfl
    | dir entries => rfl

/-- A way that leads to an entry goes on from there, unless the entry is a link. -/
theorem walkLinks_append (h : walkLinks root asWritten n trail ahead = .ok spot)
    (hlink : ∀ target, top root spot.trail ≠ .link target) :
    ∃ m, ∀ rest, walkLinks root asWritten n trail (ahead ++ rest) =
      walk root asWritten (walkLinks root asWritten m) spot.trail rest := by
  -- The outer induction is on the links that may still be met, the inner one on the segments up to one.
  induction n generalizing trail ahead with
  | zero => cases h
  | succ n ihn =>
    simp only [walkLinks] at h ⊢
    induction ahead generalizing trail with
    | nil =>
      rw [walk] at h
      obtain rfl := Except.ok.inj h
      exact ⟨n, fun rest => rfl⟩
    | cons name ahead ih =>
      rw [walk_cons] at h
      simp only [List.cons_append, walk_cons]
      cases hturn : turn root trail name with
      | fails e =>
        rw [hturn] at h
        cases h
      | goes trail =>
        rw [hturn] at h
        exact ih h
      | meets target =>
        rw [hturn] at h
        cases ahead with
        | nil =>
          obtain rfl := Except.ok.inj h
          exact absurd rfl (hlink target)
        | cons next ahead =>
          obtain ⟨m, hm⟩ := ihn h
          exact ⟨m, fun rest => by rw [← hm, List.append_assoc]; rfl⟩

/-- A way that leads somewhere leads somewhere with each of its beginnings. -/
theorem walkLinks_of_append (h : walkLinks root asWritten n trail (ahead ++ rest) = .ok spot) :
    ∃ spot', walkLinks root asWritten n trail ahead = .ok spot' := by
  induction n generalizing trail ahead with
  | zero => cases h
  | succ n ihn =>
    simp only [walkLinks] at h ⊢
    induction ahead generalizing trail with
    | nil => exact ⟨_, rfl⟩
    | cons name ahead ih =>
      rw [List.cons_append, walk_cons] at h
      rw [walk_cons]
      cases hturn : turn root trail name with
      | fails e =>
        rw [hturn] at h
        cases h
      | goes trail =>
        rw [hturn] at h
        exact ih h
      | meets target =>
        rw [hturn] at h
        cases ahead with
        | nil => exact ⟨_, rfl⟩
        | cons next ahead =>
          dsimp only at h
          rw [if_neg (by simp), ← List.append_assoc] at h
          exact ihn h

/-- On the way to something else a dot makes no difference. -/
theorem walkLinks_dot (root : Entry) (n : Nat) (trail : Trail) (ahead : List String)
    (hrest : rest ≠ []) :
    walkLinks root asWritten n trail (ahead ++ "." :: rest) =
      walkLinks root asWritten n trail (ahead ++ rest) := by
  induction n generalizing trail ahead with
  | zero => rfl
  | succ n ihn =>
    simp only [walkLinks]
    induction ahead generalizing trail with
    | nil =>
      obtain ⟨name, rest, rfl⟩ := List.exists_cons_of_ne_nil hrest
      cases hdir : (top root trail).isDir <;> simp [walk_cons, turn, hdir]
    | cons name ahead ih =>
      simp only [List.cons_append, walk_cons]
      cases turn root trail name with
      | fails e => rfl
      | goes trail => exact ih trail
      | meets target =>
        have hleft : (ahead ++ "." :: rest).isEmpty = false := by simp
        have hright : (ahead ++ rest).isEmpty = false := by simp [hrest]
        dsimp only
        rw [hleft, hright, if_neg Bool.false_ne_true, if_neg Bool.false_ne_true, ← List.append_assoc,
          ← List.append_assoc, ihn]

theorem walk_name {name : String} (hname : IsName name)
    (jump : Trail → List String → Except FileError Spot) (e : Entry) :
    (∃ spot, walk root asWritten jump trail [name] = .ok spot ∧ top root spot.trail = e) ↔
      (top root trail).child? name = some e := by
  rw [walk_cons]
  unfold turn
  cases htop : top root trail with
  | file content => simp [Entry.isDir, Entry.child?]
  | link target => simp [Entry.isDir, Entry.child?]
  | dir entries =>
    cases hchild : (Entry.dir entries).child? name with
    | none => simp [Entry.isDir, hname.not_dot, hname.not_dots, Nat.not_lt.2 hname.size_le]
    | some child =>
      cases child <;> simp [Entry.isDir, hname.not_dot, hname.not_dots, Nat.not_lt.2 hname.size_le,
        walk, top]

/-! ## What is found -/

variable {t : FileTree} {path name : String} {names : List String} {d e : Entry}

theorem find_eq_ok_iff :
    t.find false path = .ok e ↔
      '\x00' ∉ path.toList ∧ path ≠ "" ∧ path.utf8ByteSize ≤ maxPathBytes ∧
        ∃ spot, walkLinks t.root asWritten (maxLinks + 1) (trailOf t.root (t.startOf path))
          (steps path) = .ok spot ∧ top t.root spot.trail = e := by
  unfold find resolve locate
  by_cases hnull : '\x00' ∈ path.toList
  · simp [hnull, bind, Except.bind]
  by_cases hempty : path = ""
  · subst hempty
    simp [bind, Except.bind]
  by_cases hlong : maxPathBytes < path.utf8ByteSize
  · simp [hnull, hlong, bind, Except.bind, Nat.not_le.2 hlong]
  simp only [hnull, hempty, hlong, Nat.not_lt.1 hlong, List.contains_eq_mem, decide_false, Bool.false_and,
    Bool.false_eq_true, if_false, String.isEmpty_iff, not_false_eq_true, ne_eq, true_and]
  change ((walkLinks t.root asWritten _ _ _).bind fun spot => Except.ok _) = Except.ok e ↔ _
  cases walkLinks t.root asWritten (maxLinks + 1) (trailOf t.root (t.startOf path)) (steps path) with
  | error err => simp [Except.bind]
  | ok spot => simp [Except.bind]

theorem ne_empty_of_find (h : t.find false path = .ok e) : path ≠ "" :=
  (find_eq_ok_iff.1 h).2.1

/-- The segments of a continued path. One that only asks for a directory is of no account behind it. -/
theorem walkLinks_steps_join (hpath : path ≠ "") (hname : IsName name) (root : Entry) (n : Nat)
    (trail : Trail) :
    walkLinks root asWritten n trail (steps (join path name)) =
      walkLinks root asWritten n trail (steps path ++ [name]) := by
  obtain ⟨pieces, -, hjoin, hsplit⟩ := Path.splitAt_join hpath hname
  unfold steps
  rw [hjoin]
  rcases hsplit with hsplit | hsplit
  · simp [hsplit, hname.nonempty]
  · rw [hsplit]
    have hdot := walkLinks_dot root n trail (pieces.map fun s => if s.isEmpty then "." else s)
      (List.cons_ne_nil name [])
    simpa [hname.nonempty] using hdot.symm

theorem startOf_join (hpath : path ≠ "") (hname : IsName name) :
    t.startOf (join path name) = t.startOf path := by
  unfold startOf
  rw [Path.isAbsolute_join hpath hname]

/-- A path is continued with the entries of the directory at it. -/
theorem find_join (hd : t.find false path = .ok d) (hlink : ∀ target, d ≠ .link target)
    (hname : IsName name) :
    t.find false (join path name) = .ok e ↔
      d.child? name = some e ∧ (join path name).utf8ByteSize ≤ maxPathBytes := by
  obtain ⟨hnull, hpath, -, spot, hwalk, rfl⟩ := find_eq_ok_iff.1 hd
  obtain ⟨m, hm⟩ := walkLinks_append hwalk hlink
  rw [find_eq_ok_iff, Path.null_mem_join_iff hpath hname, startOf_join hpath hname,
    walkLinks_steps_join hpath hname, hm, walk_name hname]
  simp [hnull, Path.join_ne_empty hpath hname, and_comm]

theorem find_of_find_join (hpath : path ≠ "") (hname : IsName name)
    (h : t.find false (join path name) = .ok e) : ∃ d, t.find false path = .ok d := by
  obtain ⟨hnull, -, hfits, spot, hwalk, -⟩ := find_eq_ok_iff.1 h
  rw [Path.null_mem_join_iff hpath hname] at hnull
  rw [startOf_join hpath hname, walkLinks_steps_join hpath hname] at hwalk
  obtain ⟨spot', hspot'⟩ := walkLinks_of_append hwalk
  have hle := Nat.le_trans (Path.utf8ByteSize_le_join hpath hname) hfits
  exact ⟨_, find_eq_ok_iff.2 ⟨hnull, hpath, hle, spot', hspot', rfl⟩⟩

/-- What is behind names in the entry at a path is found below the path. -/
theorem find_below (hd : t.find false path = .ok d) (hnames : ∀ n ∈ names, IsName n)
    (hfits : (below path names).utf8ByteSize ≤ maxPathBytes) (hget : d.get? names = some e) :
    t.find false (below path names) = .ok e := by
  induction names using List.reverseRecOn generalizing e with
  | nil =>
    obtain rfl := Option.some.inj hget
    exact hd
  | append_singleton names name ih =>
    have hsome : ∀ n ∈ names, IsName n := fun n hn => hnames n (by simp [hn])
    have hname := hnames name (by simp)
    rw [Path.below_append_singleton] at hfits ⊢
    rw [Entry.get?_append] at hget
    obtain ⟨above, habove, hchild⟩ := Option.bind_eq_some_iff.1 hget
    replace hchild : above.child? name = some e := by simpa [Entry.get?] using hchild
    have hle := Path.utf8ByteSize_le_join (Path.below_ne_empty (ne_empty_of_find hd) hsome) hname
    refine (find_join (ih hsome (Nat.le_trans hle hfits) habove) ?_ hname).2 ⟨hchild, hfits⟩
    rintro target rfl
    cases hchild

/-- What is found below a path is behind the names, if no link is on the way. -/
theorem get?_of_find (hd : t.find false path = .ok d) (hnames : ∀ n ∈ names, IsName n)
    (hlink : ∀ above, above <+: names → ∀ target, t.find false (below path above) ≠ .ok (.link target))
    (h : t.find false (below path names) = .ok e) : d.get? names = some e := by
  induction names using List.reverseRecOn generalizing e with
  | nil => rw [← Except.ok.inj (hd.symm.trans h), Entry.get?]
  | append_singleton names name ih =>
    have hsome : ∀ n ∈ names, IsName n := fun n hn => hnames n (by simp [hn])
    have hname := hnames name (by simp)
    rw [Path.below_append_singleton] at h
    obtain ⟨above, habove⟩ := find_of_find_join (Path.below_ne_empty (ne_empty_of_find hd) hsome) hname h
    have hget := ih hsome (fun a ha => hlink a (ha.trans (List.prefix_append _ _))) habove
    have hsolid : ∀ target, above ≠ .link target := by
      rintro target rfl
      exact hlink names (List.prefix_append _ _) target habove
    have hchild := ((find_join habove hsolid hname).1 h).1
    simp [Entry.get?_append, hget, Entry.get?, hchild]

theorem below_absolute {place : List String} (hnames : ∀ n ∈ place ++ names, IsName n) :
    below (absolute place) names = absolute (place ++ names) := by
  induction names using List.reverseRecOn with
  | nil => simp [below]
  | append_singleton names name ih =>
    have hsome : ∀ n ∈ place ++ names, IsName n := by
      intro n hn
      exact hnames n (by simpa using (List.mem_append.1 hn).imp_right .inl)
    rw [Path.below_append_singleton, ih hsome, join_absolute hsome (hnames name (by simp)),
      List.append_assoc]

end FileTree

end PhpAudit
