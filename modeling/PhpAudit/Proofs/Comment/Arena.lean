import PhpAudit.Proofs.Comment.Twin

/-!
# The arena of a commented outline

The arena with the comment is built from the same rows in the same order, one row apart. `Matches` compares
the two arenas while they grow: a row that both get is appended to both (`Matches.push`), the row of the
comment to the second alone (`Matches.push_comment`). Behind the comment the two builders stand below the
same ancestors again, since the comment is a leaf. So the finished arenas are twins (`twin_ofOutline`).
-/

namespace PhpAudit.Insertion

variable {g : Insertion} {f f' : SourceFile}

/-- What is built of the two arenas agrees, and the comment is in place once its turn has come. -/
structure Matches (g : Insertion) (f f' : SourceFile) : Prop where
  same : ∀ i n, f.node? i = some n → ∃ n', f'.node? (g.up i) = some n' ∧ g.Same n n'
  comment : g.site < f'.size → ∃ c, f'.node? g.site = some c ∧ g.IsComment c

/-! ## Appending a row -/

theorem Matches.push (hm : g.Matches f f') (hsize : f'.size = g.up f.size) {d d' : Draft}
    (hd : g.Same { d with id := f.size } { d' with id := f'.size }) :
    g.Matches (f.push d) (f'.push d') := by
  have hparent : ∀ i, d'.parent = some (g.up i) ↔ d.parent = some i := by
    intro i
    rw [show d'.parent = d.parent.map g.up from hd.parent_eq, Option.map_eq_some_iff]
    constructor
    · rintro ⟨p, hp, hup⟩
      rw [hp, up_inj.1 hup]
    · exact fun hp => ⟨i, hp, rfl⟩
  refine ⟨?_, ?_⟩
  · intro i n hn
    rw [SourceFile.node?_push] at hn
    split at hn
    · next hi =>
      obtain rfl := Option.some.inj hn
      rw [hi, ← hsize]
      exact ⟨_, SourceFile.push_new f' d', hd⟩
    · next hi =>
      obtain ⟨m, hm', rfl⟩ := Option.map_eq_some_iff.1 hn
      obtain ⟨n', hn', hsame⟩ := hm.same i m hm'
      have hne : g.up i ≠ f'.size := by rw [hsize, ne_eq, up_inj]; exact hi
      rw [SourceFile.node?_push, if_neg hne, hn']
      refine ⟨_, rfl, ?_⟩
      dsimp only
      by_cases hp : d.parent = some i
      · rw [if_pos hp, if_pos ((hparent i).2 hp)]
        refine { hsame with children_eq := ?_ }
        have hkeep : [f'.size].filter (· != g.site) = [g.up f.size] := by
          rw [hsize]
          simp [up_ne_site]
        rw [List.filter_append, hsame.children_eq, hkeep, List.map_append, List.map_singleton]
      · rw [if_neg hp, if_neg (mt (hparent i).1 hp)]
        exact hsame
  · intro hlt
    have hne : g.site ≠ f'.size := by rw [hsize]; exact (up_ne_site _).symm
    rw [SourceFile.size_push] at hlt
    obtain ⟨c, hc, hcomment⟩ := hm.comment (by omega)
    -- no row below hangs from the comment
    have hp : d'.parent ≠ some g.site := by
      rw [show d'.parent = d.parent.map g.up from hd.parent_eq]
      intro h
      obtain ⟨p, -, hup⟩ := Option.map_eq_some_iff.1 h
      exact up_ne_site p hup
    rw [SourceFile.node?_push, if_neg hne, hc]
    exact ⟨c, by rw [Option.map_some, if_neg hp], hcomment⟩

theorem Matches.push_comment (hm : g.Matches f f') (hsize' : f'.size = g.site) {d : Draft}
    (hkind : d.kind = .comment) (hform : d.form = "comment") (hfield : d.field = none)
    (hvalue : d.value = none) (hresolved : d.resolved = none) : g.Matches f (f'.push d) := by
  refine ⟨?_, ?_⟩
  · intro i n hn
    obtain ⟨n', hn', hsame⟩ := hm.same i n hn
    have hne : g.up i ≠ f'.size := by rw [hsize']; exact up_ne_site i
    rw [SourceFile.node?_push, if_neg hne, hn']
    refine ⟨_, rfl, ?_⟩
    split
    · refine { hsame with children_eq := ?_ }
      have hdrop : [f'.size].filter (· != g.site) = [] := by rw [hsize']; simp
      rw [List.filter_append, hsame.children_eq, hdrop, List.append_nil]
    · exact hsame
  · intro _
    rw [← hsize']
    exact ⟨_, SourceFile.push_new f' d, hsize', hkind, hform, hfield, rfl, hvalue, hresolved⟩

/-! ## The way up from the last row -/

/-- The ids from the last of the rows up to the root. -/
def pathAfter (size : Nat) (path : List Nat) : Outline → List Nat
  | [] => path
  | row :: rows => pathAfter (size + 1) (size :: path.drop (path.length - row.depth)) rows

theorem pushRows_append (starts : List Nat) (f : SourceFile) (path : List Nat) (rows more : Outline) :
    SourceFile.pushRows starts f path (rows ++ more) =
      SourceFile.pushRows starts (SourceFile.pushRows starts f path rows)
        (pathAfter f.size path rows) more := by
  induction rows generalizing f path with
  | nil => rfl
  | cons row rows ih =>
    simp only [List.cons_append, SourceFile.pushRows, pathAfter]
    rw [ih, SourceFile.size_push]

theorem span_of_node?_pushRows {starts : List Nat} {f : SourceFile} {path : List Nat} {rows : Outline}
    {i : Nat} {n : Node} (h : (SourceFile.pushRows starts f path rows).node? i = some n) :
    (∃ r ∈ rows, n.span = r.span) ∨ ∃ m, f.node? i = some m ∧ n.span = m.span := by
  induction rows generalizing f path with
  | nil => exact .inr ⟨n, h, rfl⟩
  | cons row rows ih =>
    rcases ih h with ⟨r, hr, hspan⟩ | ⟨m, hm, hspan⟩
    · exact .inl ⟨r, List.mem_cons_of_mem _ hr, hspan⟩
    · rcases SourceFile.push_cases hm with ⟨-, rfl⟩ | ⟨k, hk, hdraft, -, -⟩
      · exact .inl ⟨row, List.mem_cons_self, hspan⟩
      · exact .inr ⟨k, hk, by rw [hspan, hdraft]⟩

theorem span_of_node?_ofOutline {path source : String} {rows : Outline} {i : Nat} {n : Node}
    (h : (SourceFile.ofOutline path source rows).node? i = some n) : ∃ r ∈ rows, n.span = r.span := by
  refine (span_of_node?_pushRows h).resolve_right ?_
  rintro ⟨m, hm, -⟩
  simp [SourceFile.node?] at hm

theorem pathAfter_map_row (size : Nat) (path : List Nat) (rows : Outline) :
    pathAfter size path (rows.map g.row) = pathAfter size path rows := by
  induction rows generalizing size path with
  | nil => rfl
  | cons row rows ih => exact ih _ _

theorem lt_of_mem_pathAfter {size : Nat} {path : List Nat} {rows : Outline} {i : Nat}
    (hpath : ∀ i ∈ path, i < size) (h : i ∈ pathAfter size path rows) : i < size + rows.length := by
  induction rows generalizing size path with
  | nil => exact hpath i h
  | cons row rows ih =>
    have := ih (fun j hj => ?_) h
    · rw [List.length_cons]
      omega
    · rcases List.mem_cons.1 hj with rfl | hj
      · exact Nat.lt_succ_self _
      · exact Nat.lt_succ_of_lt (hpath j (List.mem_of_mem_drop hj))

/-- In a nested outline the next row fits below the last one. -/
theorem le_length_pathAfter {size d e : Nat} {path : List Nat} {rows : Outline}
    (hchain : (e :: (rows.map (·.depth) ++ [d])).IsChain (fun d e => e ≤ d + 1))
    (hpath : path.length = e + 1) : d ≤ (pathAfter size path rows).length := by
  induction rows generalizing size e path with
  | nil =>
    simp only [List.map_nil, List.nil_append, List.isChain_cons_cons] at hchain
    unfold pathAfter
    omega
  | cons row rows ih =>
    simp only [List.map_cons, List.cons_append, List.isChain_cons_cons] at hchain
    refine ih hchain.2 ?_
    rw [List.length_cons, List.length_drop]
    omega

/-! ## Appending rows -/

theorem same_of_row (hg : g.Valid) {row : OutlineRow} {size size' : Nat}
    {parent parent' : Option Nat} (hsize : size' = g.up size)
    (hparent : parent' = parent.map g.up) :
    g.Same
      { kind := .ofForm row.form, form := row.form, parent := parent, field := row.field,
        span := row.span, place := .ofOffset (Text.lineStarts g.source) row.span.start, id := size }
      { kind := .ofForm (g.row row).form, form := (g.row row).form, parent := parent',
        field := (g.row row).field, span := (g.row row).span,
        place := .ofOffset (Text.lineStarts g.commentedSource) (g.row row).span.start,
        id := size' } where
  id_eq := hsize
  parent_eq := hparent
  children_eq := rfl
  kind_eq := rfl
  form_eq := rfl
  field_eq := rfl
  line_eq := line_ofOffset hg row.span.start
  start_eq := rfl
  stop_eq := rfl

theorem Matches.pushRows (hg : g.Valid) {rows : Outline} {path path' : List Nat}
    (hm : g.Matches f f') (hsize : ∀ j < rows.length, f'.size + j = g.up (f.size + j))
    (hpath : ∀ r ∈ rows.head?, path'.drop (path'.length - r.depth) =
      (path.drop (path.length - r.depth)).map g.up) :
    g.Matches (SourceFile.pushRows (Text.lineStarts g.source) f path rows)
      (SourceFile.pushRows (Text.lineStarts g.commentedSource) f' path' (rows.map g.row)) := by
  induction rows generalizing f f' path path' with
  | nil => exact hm
  | cons row rows ih =>
    have hsize0 : f'.size = g.up f.size := by simpa using hsize 0 (by simp)
    have habove : path'.drop (path'.length - (g.row row).depth) =
        (path.drop (path.length - row.depth)).map g.up := hpath row (by simp)
    simp only [List.map_cons, SourceFile.pushRows]
    rw [habove]
    refine ih (hm.push hsize0 (same_of_row hg hsize0 List.head?_map)) ?_ ?_
    · intro j hj
      rw [SourceFile.size_push, SourceFile.size_push]
      have := hsize (j + 1) (by rw [List.length_cons]; omega)
      rw [Nat.add_right_comm, Nat.add_right_comm f.size]
      exact this
    · -- from here on the paths are the same up to the ids
      intro r _
      rw [hsize0, ← List.map_cons, List.length_map, List.map_drop]

/-- The comment hangs from a row on the way up from the row in front of it. -/
theorem depth_le_length_pathAfter (hg : g.Valid) :
    g.depth ≤ (pathAfter 0 [] g.rowsBefore).length := by
  obtain ⟨r, hhead, hr⟩ := Option.map_eq_some_iff.1 hg.root
  obtain ⟨rs, hrows⟩ := List.head?_eq_some_iff.1 hhead
  have hnested := hg.nested
  rw [hrows] at hnested ⊢
  rw [List.map_cons, List.cons_append] at hnested
  unfold pathAfter
  exact le_length_pathAfter hnested (by rw [hr, List.drop_nil]; rfl)

/-- A row no deeper than a leaf hangs from where it would without the leaf. -/
theorem drop_behind_leaf {path : List Nat} {leaf depth e : Nat} (hdepth : depth ≤ path.length)
    (he : e ≤ depth) :
    (leaf :: path.drop (path.length - depth)).drop
        ((leaf :: path.drop (path.length - depth)).length - e) = path.drop (path.length - e) := by
  have hlength : (leaf :: path.drop (path.length - depth)).length - e = depth - e + 1 := by
    simp only [List.length_cons, List.length_drop]
    omega
  rw [hlength, List.drop_succ_cons, List.drop_drop]
  congr 1
  omega

/-- The arenas of an outline without and with the comment. -/
theorem matches_ofOutline (hg : g.Valid) :
    g.Matches (.ofOutline g.path g.source (g.rowsBefore ++ g.rowsAfter))
      (.ofOutline g.path g.commentedSource
        (g.rowsBefore.map g.row ++ g.commentRow :: g.rowsAfter.map g.row)) := by
  unfold SourceFile.ofOutline
  rw [pushRows_append, pushRows_append]
  rw [pathAfter_map_row]
  have hempty : g.Matches { path := g.path, source := g.source }
      { path := g.path, source := g.commentedSource } :=
    ⟨fun i n hn => by simp [SourceFile.node?] at hn,
      fun h => absurd h (by simp [SourceFile.size])⟩
  -- in front of the comment the ids are the same
  have hfront : g.Matches
      (SourceFile.pushRows (Text.lineStarts g.source) { path := g.path, source := g.source } []
        g.rowsBefore)
      (SourceFile.pushRows (Text.lineStarts g.commentedSource)
        { path := g.path, source := g.commentedSource } [] (g.rowsBefore.map g.row)) := by
    refine hempty.pushRows hg (fun j hj => ?_) (fun r _ => by simp)
    unfold up
    simp [SourceFile.size, site, hj]
  have hsize : (SourceFile.pushRows (Text.lineStarts g.source) { path := g.path, source := g.source }
      [] g.rowsBefore).size = g.site := by
    rw [SourceFile.size_pushRows]
    simp [SourceFile.size, site]
  have hsize' : (SourceFile.pushRows (Text.lineStarts g.commentedSource)
      { path := g.path, source := g.commentedSource } [] (g.rowsBefore.map g.row)).size = g.site := by
    rw [SourceFile.size_pushRows]
    simp [SourceFile.size, site]
  have hpath : ∀ i ∈ pathAfter 0 [] g.rowsBefore, i < g.site := by
    intro i hi
    simpa [site] using lt_of_mem_pathAfter (by simp) hi
  have hdepth := depth_le_length_pathAfter hg
  generalize SourceFile.pushRows (Text.lineStarts g.source) _ [] g.rowsBefore = front at *
  generalize SourceFile.pushRows (Text.lineStarts g.commentedSource) _ [] _ = front' at *
  rw [show ({ path := g.path, source := g.source } : SourceFile).size = 0 from rfl,
    show ({ path := g.path, source := g.commentedSource } : SourceFile).size = 0 from rfl]
  generalize pathAfter 0 [] g.rowsBefore = path at *
  simp only [SourceFile.pushRows]
  refine (hfront.push_comment hsize' rfl rfl rfl rfl rfl).pushRows hg (fun j _ => ?_) fun r hr => ?_
  · unfold up
    rw [SourceFile.size_push, hsize, hsize', if_neg (by omega)]
    omega
  · -- the next row hangs from an ancestor of the comment
    have hup : path.map g.up = path := by
      rw [List.map_congr_left (g := id) fun i hi => ?_, List.map_id]
      unfold up
      rw [if_pos (hpath i hi), id]
    rw [List.map_drop, hup]
    exact drop_behind_leaf hdepth (hg.leaf r hr)

/-- The two arenas of an outline are twins. -/
theorem twin_ofOutline (hg : g.Valid) :
    g.Twin (.ofOutline g.path g.source (g.rowsBefore ++ g.rowsAfter))
      (.ofOutline g.path g.commentedSource
        (g.rowsBefore.map g.row ++ g.commentRow :: g.rowsAfter.map g.row)) := by
  have hm := matches_ofOutline hg
  have hsize : (SourceFile.ofOutline g.path g.source (g.rowsBefore ++ g.rowsAfter)).size =
      g.rowsBefore.length + g.rowsAfter.length := by
    unfold SourceFile.ofOutline
    rw [SourceFile.size_pushRows, List.length_append]
    exact Nat.zero_add _
  have hsize' : (SourceFile.ofOutline g.path g.commentedSource
      (g.rowsBefore.map g.row ++ g.commentRow :: g.rowsAfter.map g.row)).size =
      g.rowsBefore.length + g.rowsAfter.length + 1 := by
    unfold SourceFile.ofOutline
    rw [SourceFile.size_pushRows, List.length_append, List.length_cons, List.length_map, List.length_map]
    exact Nat.zero_add _
  refine ⟨SourceFile.linked_ofOutline .., SourceFile.linked_ofOutline .., ?_, ?_, ?_, ?_, ?_, ?_, ?_,
    ?_, ?_⟩
  · rw [hsize, hsize']
  · obtain ⟨r, hhead, -⟩ := Option.map_eq_some_iff.1 hg.root
    obtain ⟨rs, hrows⟩ := List.head?_eq_some_iff.1 hhead
    unfold site
    rw [hrows]
    exact Nat.succ_pos _
  · rw [hsize]
    exact Nat.le_add_right _ _
  · exact SourceFile.source_pushRows ..
  · exact SourceFile.source_pushRows ..
  · intro i n hn
    obtain ⟨r, hr, hspan⟩ := span_of_node?_ofOutline hn
    exact hspan ▸ hg.ranges r hr
  · intro i n hn
    obtain ⟨r, hr, hspan⟩ := span_of_node?_ofOutline hn
    exact hspan ▸ hg.no_gap_row r hr
  · refine hm.comment ?_
    rw [hsize']
    unfold site
    omega
  · exact hm.same _ _

end PhpAudit.Insertion
